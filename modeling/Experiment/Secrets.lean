import Experiment.Json.Writer
import Experiment.Run.Basic

/-!
# Secrets

The sources of a run's secrets are names of environment variables, or names with their values. What
they resolve to is a context, which is asked for one name at a time.
-/

namespace Experiment

/-- Secrets by name. The names stand in order, so that contexts with the same secrets are equal,
whichever came first. -/
structure Secrets where
  values : OrderedMap String
  sorted : values.Pairwise fun a b => a.1 < b.1
deriving DecidableEq

namespace Secrets
variable {name value key : String} {m m' : OrderedMap String}

/-- The value takes the place of an earlier one, or that of its name among the others. -/
def put (name value : String) : OrderedMap String → OrderedMap String
  | [] => [(name, value)]
  | (n, v) :: rest =>
    if name = n then (n, value) :: rest
    else if name < n then (name, value) :: (n, v) :: rest
    else (n, v) :: put name value rest

theorem name_of_mem_put {p : String × String} (h : p ∈ put name value m) :
    p.1 = name ∨ ∃ q ∈ m, q.1 = p.1 := by
  induction m with
  | nil =>
      obtain rfl := List.mem_singleton.1 h
      exact .inl rfl
  | cons q rest ih =>
      obtain ⟨n, v⟩ := q
      rw [put] at h
      split at h
      · obtain rfl | h := List.mem_cons.1 h
        · exact .inr ⟨(n, v), List.mem_cons_self, rfl⟩
        · exact .inr ⟨p, List.mem_cons_of_mem _ h, rfl⟩
      · split at h
        · obtain rfl | h := List.mem_cons.1 h
          · exact .inl rfl
          · exact .inr ⟨p, h, rfl⟩
        · obtain rfl | h := List.mem_cons.1 h
          · exact .inr ⟨(n, v), List.mem_cons_self, rfl⟩
          · exact (ih h).imp_right fun ⟨q, hq, he⟩ => ⟨q, List.mem_cons_of_mem _ hq, he⟩

theorem sorted_put (h : m.Pairwise fun a b => a.1 < b.1) :
    (put name value m).Pairwise fun a b => a.1 < b.1 := by
  induction m with
  | nil => exact List.pairwise_singleton _ _
  | cons q rest ih =>
      obtain ⟨n, v⟩ := q
      obtain ⟨hfirst, hrest⟩ := List.pairwise_cons.1 h
      rw [put]
      split
      · exact List.pairwise_cons.2 ⟨hfirst, hrest⟩
      · split
        next hlt =>
          exact List.pairwise_cons.2 ⟨List.forall_mem_cons.2 ⟨hlt, fun p hp =>
            String.lt_trans hlt (hfirst p hp)⟩, h⟩
        next hne hle =>
          have hlt : n < name := Std.lt_of_le_of_ne (String.not_lt.1 hle) (Ne.symm hne)
          refine List.pairwise_cons.2 ⟨fun p hp => ?_, ih hrest⟩
          obtain he | ⟨q, hq, he⟩ := name_of_mem_put hp
          · exact he ▸ hlt
          · exact he ▸ hfirst q hq

def empty : Secrets := ⟨[], .nil⟩

def insert (name value : String) (s : Secrets) : Secrets :=
  ⟨put name value s.values, sorted_put s.sorted⟩

def get? (s : Secrets) (name : String) : Option String :=
  OrderedMap.find? name s.values

def size (s : Secrets) : Nat :=
  s.values.length

theorem find?_put : OrderedMap.find? key (put name value m) =
    if name = key then some value else OrderedMap.find? key m := by
  induction m with
  | nil => rfl
  | cons q rest ih =>
      obtain ⟨n, v⟩ := q
      rw [put]
      split
      next h =>
        subst h
        simp only [OrderedMap.find?]
        split <;> rfl
      next h =>
        split
        · rfl
        · rw [OrderedMap.find?, OrderedMap.find?, ih]
          by_cases hn : n = key
          · rw [if_pos hn, if_pos hn, if_neg fun he => h (he.trans hn.symm)]
          · rw [if_neg hn, if_neg hn]

theorem get?_insert (s : Secrets) :
    (s.insert name value).get? key = if name = key then some value else s.get? key :=
  find?_put

theorem find?_eq_none_of_lt (h : ∀ p ∈ m, name < p.1) : OrderedMap.find? name m = none :=
  OrderedMap.find?_eq_none_iff.2 fun p hp he => String.lt_irrefl name (he ▸ h p hp)

theorem le_of_find? {first : String × String}
    (h : (first :: m).Pairwise fun a b => a.1 < b.1)
    (hf : OrderedMap.find? name (first :: m) ≠ none) : first.1 ≤ name := by
  refine String.not_lt.1 fun hlt => hf (find?_eq_none_of_lt ?_)
  exact List.forall_mem_cons.2 ⟨hlt, fun p hp => String.lt_trans hlt ((List.pairwise_cons.1 h).1 p hp)⟩

theorem eq_of_find? (h : m.Pairwise fun a b => a.1 < b.1) (h' : m'.Pairwise fun a b => a.1 < b.1)
    (hf : ∀ name, OrderedMap.find? name m = OrderedMap.find? name m') : m = m' := by
  induction m generalizing m' with
  | nil =>
      cases m' with
      | nil => rfl
      | cons q rest =>
          have hq := hf q.1
          simp [OrderedMap.find?] at hq
  | cons p rest ih =>
      cases m' with
      | nil =>
          have hp := hf p.1
          simp [OrderedMap.find?] at hp
      | cons q rest' =>
          obtain ⟨k, v⟩ := p
          obtain ⟨k', v'⟩ := q
          obtain ⟨hfirst, hrest⟩ := List.pairwise_cons.1 h
          obtain ⟨hfirst', hrest'⟩ := List.pairwise_cons.1 h'
          have hk : k = k' := String.le_antisymm
            (le_of_find? h (by rw [hf]; simp [OrderedMap.find?]))
            (le_of_find? h' (by rw [← hf]; simp [OrderedMap.find?]))
          subst hk
          have hv : v = v' := by simpa [OrderedMap.find?] using hf k
          have htail : rest = rest' := ih hrest hrest' fun name => by
            by_cases hn : k = name
            · subst hn
              rw [find?_eq_none_of_lt hfirst, find?_eq_none_of_lt hfirst']
            · simpa [OrderedMap.find?, hn] using hf name
          rw [hv, htail]

/-- Contexts differ only in the value of some name. -/
theorem eq_iff {s t : Secrets} : s = t ↔ ∀ name, s.get? name = t.get? name := by
  refine ⟨fun h _ => by rw [h], fun h => ?_⟩
  obtain ⟨values, sorted⟩ := s
  obtain ⟨values', sorted'⟩ := t
  obtain rfl : values = values' := eq_of_find? sorted sorted' h
  rfl

def plainText : Json → String
  | .string s => s
  | v => v.compact

def names (source : Json) : List String :=
  ((Text.splitOn ',' (plainText source).toList).map fun part =>
    String.ofList (Text.trimChars part)).filter fun n => n ≠ ""

def addNamed (environment : OrderedMap String) (acc : Secrets) (name : String) : Secrets :=
  match OrderedMap.find? name environment with
  | some value => acc.insert name value
  | none => acc

/-- Sources of any other kind are passed over. -/
def addSource (environment : OrderedMap String) (acc : Secrets) (s : SecretSource) : Secrets :=
  if s.kind = "env" then (names s.source).foldl (addNamed environment) acc
  else if s.kind = "inline" then
    match s.source with
    | .object fields => fields.foldl (fun acc p => acc.insert p.1 (plainText p.2)) acc
    | _ => acc
  else acc

def resolve (environment : OrderedMap String) (run : Run) : Secrets :=
  run.spec.secretSources.foldl (addSource environment) empty

def environmentNames (run : Run) : List String :=
  (run.spec.secretSources.filter fun s => s.kind = "env").flatMap fun s => names s.source

end Secrets

end Experiment
