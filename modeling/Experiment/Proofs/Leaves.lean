import Experiment.Proofs.IterationTable

/-!
# The leaves of parameters and outputs

Parameters and outputs are cut down to their leaves, each with the names that lead to it. Names
joined by dots say which column a leaf goes to, and of several leaves for one column the last one
remains, whichever way leads there.
-/

namespace Experiment

namespace OrderedMap
variable {α : Type} {key : String} {m : OrderedMap α}

theorem find?_reverse (h : (keys m).Nodup) : find? key m.reverse = find? key m := by
  induction m with
  | nil => rfl
  | cons p rest ih =>
      obtain ⟨hp, hrest⟩ := List.nodup_cons.1 h
      rw [List.reverse_cons, find?_append, ih hrest, find?]
      by_cases hk : p.1 = key
      · have hnone : find? key rest = none :=
          find?_eq_none_iff.2 fun q hq he => hp (hk.trans he.symm ▸ List.mem_map_of_mem hq)
        rw [hnone, if_pos hk, Option.none_or, find?, if_pos hk]
      · rw [if_neg hk, find?_nil, Option.or_none, find?, if_neg hk]

/-- The last of the new values is held, else the old one. -/
theorem find?_extend (key : String) (m extra : OrderedMap α) :
    find? key (extend m extra) = (find? key extra.reverse).or (find? key m) := by
  induction extra generalizing m with
  | nil => rfl
  | cons p rest ih =>
      have hstep : extend m (p :: rest) = extend (insert p.1 p.2 m) rest := rfl
      rw [hstep, ih, List.reverse_cons, find?_append, Option.or_assoc]
      congr 1
      by_cases hk : p.1 = key
      · rw [← hk, find?_insert_self, find?, if_pos rfl, Option.some_or]
      · rw [find?_insert_of_ne p.2 m (Ne.symm hk), find?, if_neg hk, find?_nil, Option.none_or]

theorem find?_swapRemove_of_ne {other : String} (hm : (keys m).Nodup) (h : other ≠ key) :
    find? other (swapRemove key m) = find? other m := by
  have hrest : (keys (remove key m)).Nodup := hm.sublist ((remove_sublist key m).map Prod.fst)
  rw [← find?_perm (swapRemove_perm key m).symm hrest, find?_remove_of_ne m h]

theorem nodup_keys_swapRemove (key : String) (hm : (keys m).Nodup) :
    (keys (swapRemove key m)).Nodup :=
  ((swapRemove_perm key m).map Prod.fst).symm.nodup
    (hm.sublist ((remove_sublist key m).map Prod.fst))

theorem extend_append (m a b : OrderedMap α) : extend m (a ++ b) = extend (extend m a) b :=
  List.foldl_append

end OrderedMap

namespace Json

mutual
/-- What is no object, from left to right, with the names on the way to it. -/
def leaves : Json → List (List String × Json)
  | .object fields => fieldLeaves fields
  | leaf => [([], leaf)]

def fieldLeaves : List (String × Json) → List (List String × Json)
  | [] => []
  | (key, value) :: rest => (leaves value).map (fun l => (key :: l.1, l.2)) ++ fieldLeaves rest
end

/-- A name and the names below it, joined by dots. -/
def dotted (name : String) : List String → String
  | [] => name
  | key :: rest => dotted (name ++ "." ++ key) rest

def spelling : List String → String
  | [] => ""
  | name :: rest => dotted name rest

theorem dotted_append (a b : String) (names : List String) :
    dotted (a ++ b) names = a ++ dotted b names := by
  induction names generalizing b with
  | nil => rfl
  | cons key rest ih => rw [dotted, dotted, ← ih, String.append_assoc, String.append_assoc,
      String.append_assoc]

/-- The leaves of a map, by their spelling. -/
def spelled (m : OrderedMap Json) : List (String × Json) :=
  (fieldLeaves m).map fun l => (spelling l.1, l.2)

/-- The last leaf that is spelled like this. -/
def lastLeaf? (name : String) (m : OrderedMap Json) : Option Json :=
  OrderedMap.find? name (spelled m).reverse

theorem ne_nil_of_mem_fieldLeaves {fields : List (String × Json)} {l : List String × Json}
    (h : l ∈ fieldLeaves fields) : ∃ key ∈ OrderedMap.keys fields, ∃ rest, l.1 = key :: rest := by
  induction fields with
  | nil => cases h
  | cons p fields ih =>
      obtain h | h := List.mem_append.1 h
      · obtain ⟨below, -, rfl⟩ := List.mem_map.1 h
        exact ⟨p.1, List.mem_cons_self, below.1, rfl⟩
      · obtain ⟨key, hkey, rest, hl⟩ := ih h
        exact ⟨key, List.mem_cons_of_mem _ hkey, rest, hl⟩

/-- Only an entry of this very name is spelled like it. -/
def Direct (name : String) (m : OrderedMap Json) : Prop :=
  ∀ l ∈ fieldLeaves m, spelling l.1 = name → l.1 = [name]

instance (name : String) (m : OrderedMap Json) : Decidable (Direct name m) :=
  inferInstanceAs (Decidable (∀ l ∈ fieldLeaves m, spelling l.1 = name → l.1 = [name]))

theorem lastLeaf?_cons (name key : String) (value : Json) (rest : OrderedMap Json) :
    lastLeaf? name ((key, value) :: rest) = (lastLeaf? name rest).or
      (OrderedMap.find? name ((leaves value).map fun l => (dotted key l.1, l.2)).reverse) := by
  rw [lastLeaf?, lastLeaf?, ← OrderedMap.find?_append, ← List.reverse_append]
  simp only [spelled, fieldLeaves, List.map_append, List.map_map]
  rfl

theorem find?_ways_eq_none {name : String} {spell : List String → String}
    {ls : List (List String × Json)} (h : ∀ l ∈ ls, spell l.1 ≠ name) :
    OrderedMap.find? name (ls.map fun l => (spell l.1, l.2)).reverse = none := by
  refine OrderedMap.find?_eq_none_iff.2 fun q hq => ?_
  obtain ⟨l, hl, rfl⟩ := List.mem_map.1 (List.mem_reverse.1 hq)
  exact h l hl

/-- A number without another spelling is shown as it stands in the map. -/
theorem number_lastLeaf? {name : String} {m : OrderedMap Json} (h : Direct name m)
    (hm : (OrderedMap.keys m).Nodup) :
    (lastLeaf? name m).bind asNumber? = (OrderedMap.find? name m).bind asNumber? := by
  induction m with
  | nil => rfl
  | cons p rest ih =>
      obtain ⟨key, value⟩ := p
      obtain ⟨hkey, hrest⟩ := List.nodup_cons.1 hm
      have hbelow : ∀ l ∈ leaves value, dotted key l.1 = name → key = name ∧ l.1 = [] :=
        fun l hl he => List.cons.inj
          (h (key :: l.1, l.2) (List.mem_append_left _ (List.mem_map.2 ⟨l, hl, rfl⟩)) he)
      have hafter : Direct name rest := fun l hl => h l (List.mem_append_right _ hl)
      rw [lastLeaf?_cons, OrderedMap.find?]
      by_cases hk : key = name
      · subst hk
        have hnone : lastLeaf? key rest = none := by
          refine find?_ways_eq_none fun l hl he => ?_
          obtain ⟨k, hmem, below, hway⟩ := ne_nil_of_mem_fieldLeaves hl
          have hhead := (List.cons.inj (hway.symm.trans (hafter l hl he))).1
          exact hkey (hhead ▸ hmem)
        rw [hnone, Option.none_or, if_pos rfl]
        cases value with
        | object fields =>
            rw [find?_ways_eq_none]
            · rfl
            · intro l hl he
              obtain ⟨_, -, _, hway⟩ := ne_nil_of_mem_fieldLeaves hl
              rw [(hbelow l hl he).2] at hway
              cases hway
        | null | bool _ | number _ | string _ | array _ => simp [leaves, dotted, OrderedMap.find?]
      · rw [find?_ways_eq_none fun l hl he => hk (hbelow l hl he).1, Option.or_none, if_neg hk]
        exact ih hafter hrest

end Json

namespace IterationTable

/-- What the columns of a table come from, but for the state and the iteration. -/
inductive Group where
  | param
  | output
deriving DecidableEq

namespace Group

def name : Group → String
  | .param => "param"
  | .output => "output"

def values : Group → Run → OrderedMap Json
  | .param, run => run.spec.parameters
  | .output, run => run.outputs

/-- The column of the leaves that are spelled like this. -/
def column (g : Group) (leaf : String) : String :=
  g.name ++ "." ++ leaf

end Group

variable {g : Group} {group name : String} {results : List Run} {run : Run}

mutual
theorem leavesInto_eq (name : String) (acc : OrderedMap Json) (value : Json) :
    leavesInto name acc value =
      acc.extend ((Json.leaves value).map fun l => (Json.dotted name l.1, l.2)) := by
  cases value with
  | object fields => rw [leavesInto, Json.leaves, fieldLeavesInto_eq]
  | null | bool _ | number _ | string _ | array _ => rfl

theorem fieldLeavesInto_eq (name : String) (acc : OrderedMap Json) (fields : List (String × Json)) :
    fieldLeavesInto name acc fields =
      acc.extend ((Json.fieldLeaves fields).map fun l => (Json.dotted name l.1, l.2)) := by
  cases fields with
  | nil => rfl
  | cons p rest =>
      rw [fieldLeavesInto, Json.fieldLeaves, List.map_append, OrderedMap.extend_append,
        ← fieldLeavesInto_eq, leavesInto_eq, List.map_map]
      rfl
end

/-- The columns of leaves are their spellings under the name of the group. -/
theorem leaves_eq (group : String) (m : OrderedMap Json) : leaves group m =
    OrderedMap.ofPairs ((Json.spelled m).map fun p => (group ++ "." ++ p.1, p.2)) := by
  have hnames : ∀ l ∈ Json.fieldLeaves m,
      Json.dotted group l.1 = group ++ "." ++ Json.spelling l.1 := by
    intro l hl
    obtain ⟨key, -, rest, hkey⟩ := Json.ne_nil_of_mem_fieldLeaves hl
    rw [hkey, Json.dotted, Json.dotted_append, Json.spelling]
  rw [leaves, fieldLeavesInto_eq, OrderedMap.ofPairs, Json.spelled, List.map_map]
  refine congrArg _ (List.map_congr_left fun l hl => ?_)
  rw [hnames l hl]
  rfl

theorem nodup_leaves (group : String) (m : OrderedMap Json) :
    (OrderedMap.keys (leaves group m)).Nodup := by
  rw [leaves_eq]
  exact OrderedMap.nodup_keys_ofPairs _

theorem find?_map_append (front name : String) (pairs : List (String × Json)) :
    OrderedMap.find? (front ++ name) (pairs.map fun p => (front ++ p.1, p.2)) =
      OrderedMap.find? name pairs := by
  induction pairs with
  | nil => rfl
  | cons p rest ih => simp only [List.map_cons, OrderedMap.find?, ih, String.append_right_inj]

theorem find?_leaves (group name : String) (m : OrderedMap Json) :
    OrderedMap.find? (group ++ "." ++ name) (leaves group m) = Json.lastLeaf? name m := by
  rw [leaves_eq, OrderedMap.ofPairs, OrderedMap.find?_extend, OrderedMap.find?_nil, Option.or_none,
    ← List.map_reverse, find?_map_append, Json.lastLeaf?]

/-- The leaves of a group are under no name that starts otherwise. -/
theorem find?_leaves_of_starts {c d : Char} (hname : Starts c name) (hgroup : Starts d group)
    (hne : c ≠ d) (m : OrderedMap Json) : OrderedMap.find? name (leaves group m) = none := by
  refine OrderedMap.find?_eq_none_iff.2 fun p hp he => hne ?_
  have hstart : Starts d p.1 := starts_leaves hgroup m _ (List.mem_map_of_mem hp)
  rw [he, Starts, hname] at hstart
  exact Option.some.inj hstart

/-- What a row shows in the column of a leaf, if there is one. -/
theorem find?_cells (g : Group) (run : Run) (name : String) :
    OrderedMap.find? (g.column name) (OrderedMap.extend (paramLeaves run) (outputLeaves run)) =
      Json.lastLeaf? name (g.values run) := by
  rw [OrderedMap.find?_extend, outputLeaves, OrderedMap.find?_reverse (nodup_leaves _ _)]
  have hp : Starts 'p' "param" := by decide
  have ho : Starts 'o' "output" := by decide
  cases g with
  | param =>
      have hcolumn : Starts 'p' (Group.param.column name) := starts_append (starts_append hp _) _
      rw [find?_leaves_of_starts hcolumn ho (by decide), Option.none_or]
      exact find?_leaves "param" name run.spec.parameters
  | output =>
      have hcolumn : Starts 'o' (Group.output.column name) := starts_append (starts_append ho _) _
      rw [paramLeaves, find?_leaves_of_starts hcolumn hp (by decide), Option.or_none]
      exact find?_leaves "output" name run.outputs

theorem find?_eq_none_of_not_mem (h : name ∉ columns results) (hr : run ∈ results) :
    OrderedMap.find? name (OrderedMap.extend (paramLeaves run) (outputLeaves run)) = none := by
  have hparam : OrderedMap.find? name (paramLeaves run) = none := by
    refine OrderedMap.find?_eq_none_iff.2 fun p hp he => h (List.mem_append_left _ ?_)
    exact mem_distinct.2 (List.mem_flatMap.2 ⟨run, hr, he ▸ List.mem_map_of_mem hp⟩)
  have houtput : OrderedMap.find? name (outputLeaves run).reverse = none := by
    refine OrderedMap.find?_eq_none_iff.2 fun p hp he => h (List.mem_append_right _ ?_)
    exact mem_distinct.2 (List.mem_flatMap.2
      ⟨run, hr, he ▸ List.mem_map_of_mem (List.mem_reverse.1 hp)⟩)
  rw [OrderedMap.find?_extend, houtput, hparam, Option.or_none]

theorem lastLeaf?_eq_none (h : g.column name ∉ columns results) (hr : run ∈ results) :
    Json.lastLeaf? name (g.values run) = none :=
  (find?_cells g run name).symm.trans (find?_eq_none_of_not_mem h hr)

end IterationTable

end Experiment
