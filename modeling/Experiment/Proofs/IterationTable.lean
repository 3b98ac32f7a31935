import Experiment.Sweep.Table
import Mathlib.Data.List.Induction

/-!
# Reading the table of a sweep

The names of parameters and outputs are prefixed, so that the column of states is never shadowed by
one of them: what it shows for a row is the state of the child that gave the row.
-/

namespace Experiment

namespace OrderedMap
variable {α : Type} {key k : String} {value : α} {m : OrderedMap α}

theorem mem_keys_insert (h : k ∈ keys (insert key value m)) : k = key ∨ k ∈ keys m := by
  by_cases hk : key ∈ keys m
  · rw [keys_insert_of_mem value hk] at h
    exact .inr h
  · rw [keys_insert_of_not_mem value hk] at h
    obtain h | h := List.mem_append.1 h
    · exact .inr h
    · exact .inl (List.mem_singleton.1 h)

end OrderedMap

namespace IterationTable
variable {c : Char} {name : String} {acc : OrderedMap Json} {results : List Run}

abbrev Starts (c : Char) (name : String) : Prop :=
  name.toList.head? = some c

theorem starts_append (h : Starts c name) (rest : String) : Starts c (name ++ rest) := by
  rw [Starts, String.toList_append, List.head?_append, h]
  rfl

theorem starts_insert {value : Json} (hn : Starts c name) (ha : ∀ k ∈ acc.keys, Starts c k) :
    ∀ k ∈ (acc.insert name value).keys, Starts c k := by
  intro k hk
  obtain rfl | hk := OrderedMap.mem_keys_insert hk
  · exact hn
  · exact ha k hk

mutual
theorem starts_leavesInto {name : String} {acc : OrderedMap Json} (hn : Starts c name)
    (ha : ∀ k ∈ acc.keys, Starts c k) (value : Json) :
    ∀ k ∈ (leavesInto name acc value).keys, Starts c k := by
  cases value with
  | object fields => exact starts_fieldLeavesInto hn ha fields
  | null | bool _ | number _ | string _ | array _ => exact starts_insert hn ha

theorem starts_fieldLeavesInto {name : String} {acc : OrderedMap Json} (hn : Starts c name)
    (ha : ∀ k ∈ acc.keys, Starts c k) (fields : List (String × Json)) :
    ∀ k ∈ (fieldLeavesInto name acc fields).keys, Starts c k := by
  cases fields with
  | nil => exact ha
  | cons p rest =>
      have hp : Starts c (name ++ "." ++ p.1) := starts_append (starts_append hn _) _
      exact starts_fieldLeavesInto hn (starts_leavesInto hp ha p.2) rest
end

theorem starts_leaves (hn : Starts c name) (m : OrderedMap Json) :
    ∀ k ∈ (leaves name m).keys, Starts c k :=
  starts_fieldLeavesInto hn (fun _ hk => absurd hk List.not_mem_nil) m

theorem mem_distinct_from (names acc : List String) {n : String} :
    n ∈ names.foldl (fun acc n => if n ∈ acc then acc else acc ++ [n]) acc ↔
      n ∈ acc ∨ n ∈ names := by
  induction names generalizing acc with
  | nil => simp
  | cons m rest ih =>
      rw [List.foldl_cons, ih, List.mem_cons]
      split
      next hm =>
        constructor
        · exact Or.imp_right .inr
        · rintro (h | rfl | h)
          · exact .inl h
          · exact .inl hm
          · exact .inr h
      next => rw [List.mem_append, List.mem_singleton, or_assoc]

theorem mem_distinct {names : List String} {n : String} : n ∈ distinct names ↔ n ∈ names := by
  rw [distinct, mem_distinct_from, or_iff_right List.not_mem_nil]

theorem distinct_concat (names : List String) (n : String) : distinct (names ++ [n]) =
    if n ∈ distinct names then distinct names else distinct names ++ [n] := by
  rw [distinct, List.foldl_append]
  rfl

theorem nodup_distinct (names : List String) : (distinct names).Nodup := by
  induction names using List.reverseRecOn with
  | nil => exact List.nodup_nil
  | append_singleton names n ih =>
      rw [distinct_concat]
      split
      next => exact ih
      next hn =>
        refine List.nodup_append.2 ⟨ih, by simp, fun a ha b hb he => hn ?_⟩
        rw [← List.mem_singleton.1 hb, ← he]
        exact ha

theorem starts_columns (h : name ∈ columns results) : Starts 'p' name ∨ Starts 'o' name := by
  obtain h | h := List.mem_append.1 h
  · obtain ⟨r, -, hk⟩ := List.mem_flatMap.1 (mem_distinct.1 h)
    exact .inl (starts_leaves (by decide) _ _ hk)
  · obtain ⟨r, -, hk⟩ := List.mem_flatMap.1 (mem_distinct.1 h)
    exact .inr (starts_leaves (by decide) _ _ hk)

theorem nodup_columns (results : List Run) : (columns results).Nodup := by
  refine List.nodup_append.2 ⟨nodup_distinct _, nodup_distinct _, fun a ha b hb he => ?_⟩
  obtain ⟨r, -, hparam⟩ := List.mem_flatMap.1 (mem_distinct.1 ha)
  obtain ⟨q, -, houtput⟩ := List.mem_flatMap.1 (mem_distinct.1 hb)
  have hp : Starts 'p' a := starts_leaves (by decide) _ _ hparam
  have ho : Starts 'o' b := starts_leaves (by decide) _ _ houtput
  rw [he, Starts, ho] at hp
  exact absurd hp (by decide)

theorem state_not_mem_columns (results : List Run) : "state" ∉ columns results := by
  intro h
  obtain h | h := starts_columns h <;> exact absurd h (by decide)

@[simp] theorem length_fill (names : List String) (cells : OrderedMap Json) :
    (fill names cells).length = names.length := by
  induction names generalizing cells with
  | nil => rfl
  | cons name rest ih => rw [fill, List.length_cons, List.length_cons, ih]

def stateOfRow (t : IterationTable) (cells : List Json) : Option Json :=
  (t.column? "state").bind (cells[·]?)

theorem cell?_state (t : IterationTable) (i : Nat) :
    t.cell? i "state" = t.rows[i]?.bind t.stateOfRow := by
  unfold cell? stateOfRow
  cases t.column? "state" <;> cases t.rows[i]? <;> rfl

/-- How many rows are in the state of error. -/
def errorRows (t : IterationTable) : Nat :=
  t.rows.countP fun cells => t.stateOfRow cells = some (.string RunState.error.name)

theorem column?_state (h : results ≠ []) :
    (ofRuns results).column? "state" = some (columns results).length := by
  have he : results.isEmpty = false := by simpa using h
  have hn : ∀ n ∈ columns results, n ≠ "state" :=
    fun n hn e => state_not_mem_columns results (e ▸ hn)
  simp only [column?, header, ofRuns, he, Bool.false_eq_true, if_false, List.head?_cons,
    Option.getD_some, List.map_append, List.findIdx?_append, List.findIdx?_map]
  rw [List.findIdx?_eq_none_iff.2 fun n hm => by simpa using hn n hm]
  simp [List.findIdx?_cons]

theorem rows_ofRuns (h : results ≠ []) :
    (ofRuns results).rows = (byIteration results).map (row (columns results)) := by
  have he : results.isEmpty = false := by simpa using h
  simp [rows, ofRuns, he]

theorem stateOfRow_row (h : results ≠ []) (run : Run) :
    (ofRuns results).stateOfRow (row (columns results) run) = some (stateCell run) := by
  rw [stateOfRow, column?_state h]
  simp [row]

theorem length_rows_ofRuns (results : List Run) : (ofRuns results).rows.length = results.length := by
  by_cases h : results = []
  · rw [h]
    rfl
  · rw [rows_ofRuns h, List.length_map, byIteration, List.length_mergeSort]

theorem cell?_state_ofRuns (results : List Run) (i : Nat) :
    (ofRuns results).cell? i "state" = (byIteration results)[i]?.map stateCell := by
  by_cases h : results = []
  · simp [h, ofRuns, cell?, rows, byIteration]
  · rw [cell?_state, rows_ofRuns h, List.getElem?_map]
    cases (byIteration results)[i]? with
    | none => rfl
    | some run => exact stateOfRow_row h run

theorem stateCell_eq_error {run : Run} :
    stateCell run = .string RunState.error.name ↔ run.state? = some .error := by
  unfold stateCell
  cases run.state? with
  | none => simp
  | some s => cases s <;> simp [RunState.name]

theorem errorRows_ofRuns (results : List Run) :
    (ofRuns results).errorRows = results.countP fun r => r.state? = some .error := by
  by_cases h : results = []
  · rw [h]
    rfl
  · rw [errorRows, rows_ofRuns h, List.countP_map]
    rw [← List.Perm.countP_eq _ (List.mergeSort_perm results _), ← byIteration]
    refine List.countP_congr fun run _ => ?_
    simp [stateOfRow_row h, stateCell_eq_error]

theorem byIteration_eq_self (h : results.Pairwise fun a b =>
    a.metadata.iteration ≤ b.metadata.iteration) : byIteration results = results :=
  List.mergeSort_of_pairwise (h.imp fun hab => by simpa using hab)

end IterationTable

end Experiment
