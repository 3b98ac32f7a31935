import Experiment.Proofs.Leaves
import Mathlib.Data.List.Nodup

/-!
# The cells of the table

A row is filled from left to right, and each column takes its cell out of those that are left. As no
name is a column twice nothing is missing later, so a row shows in the column of a leaf the last leaf
of its child that is spelled like it. Under a name without a column there is no cell, and no child
has a leaf.
-/

namespace Experiment

namespace IterationTable
variable {g : Group} {name : String} {results : List Run} {run : Run}

/-- A column takes no cell that a later one needs, for no name is a column twice. -/
theorem fill_eq {names : List String} {cells : OrderedMap Json} (hn : names.Nodup)
    (hc : (OrderedMap.keys cells).Nodup) :
    fill names cells = names.map fun n => (OrderedMap.find? n cells).getD .null := by
  induction names generalizing cells with
  | nil => rfl
  | cons name rest ih =>
      obtain ⟨hname, hrest⟩ := List.nodup_cons.1 hn
      rw [fill, List.map_cons, ih hrest (OrderedMap.nodup_keys_swapRemove name hc)]
      refine congrArg _ (List.map_congr_left fun n hn => ?_)
      have hne : n ≠ name := fun he => hname (he ▸ hn)
      rw [OrderedMap.find?_swapRemove_of_ne hc hne]

theorem nodup_cells (run : Run) :
    (OrderedMap.keys (OrderedMap.extend (paramLeaves run) (outputLeaves run))).Nodup :=
  OrderedMap.nodup_keys_extend (nodup_leaves "param" _) _

theorem row_columns (results : List Run) (run : Run) :
    row (columns results) run =
      (columns results).map (fun n => (OrderedMap.find? n
        (OrderedMap.extend (paramLeaves run) (outputLeaves run))).getD .null)
      ++ [stateCell run, Json.ofNat run.metadata.iteration] := by
  rw [row, fill_eq (nodup_columns results) (nodup_cells run)]

theorem mem_byIteration : run ∈ byIteration results ↔ run ∈ results :=
  List.mem_mergeSort

theorem header_ofRuns (h : results ≠ []) :
    (ofRuns results).header = (columns results ++ ["state", "iter"]).map Json.string := by
  have he : results.isEmpty = false := by simpa using h
  simp [header, ofRuns, he]

theorem column?_of_mem (h : name ∈ columns results) :
    ∃ k, (ofRuns results).column? name = some k ∧ (columns results)[k]? = some name := by
  have hne : results ≠ [] := by
    rintro rfl
    cases h
  cases hk : (columns results).findIdx? (· = name) with
  | none => exact absurd (List.findIdx?_eq_none_iff.1 hk name h) (by simp)
  | some k =>
      obtain ⟨hlt, hat, -⟩ := List.findIdx?_eq_some_iff_getElem.1 hk
      refine ⟨k, ?_, ?_⟩
      · simp [column?, header_ofRuns hne, List.findIdx?_append, List.findIdx?_map,
          Function.comp_def, hk]
      · rw [List.getElem?_eq_getElem hlt, of_decide_eq_true hat]

theorem column?_of_not_mem (h : name ∉ columns results) (hstate : name ≠ "state")
    (hiter : name ≠ "iter") : (ofRuns results).column? name = none := by
  by_cases hne : results = []
  · rw [hne]
    rfl
  · rw [column?, header_ofRuns hne, List.findIdx?_eq_none_iff]
    intro cell hcell
    obtain ⟨n, hn, rfl⟩ := List.mem_map.1 hcell
    simp only [Json.string.injEq, decide_eq_false_iff_not]
    rintro rfl
    obtain hn | hn := List.mem_append.1 hn
    · exact h hn
    · simp [hstate, hiter] at hn

theorem cell?_of_mem (h : name ∈ columns results) (i : Nat) :
    (ofRuns results).cell? i name = (byIteration results)[i]?.map fun run =>
      (OrderedMap.find? name
        (OrderedMap.extend (paramLeaves run) (outputLeaves run))).getD .null := by
  have hne : results ≠ [] := by
    rintro rfl
    cases h
  obtain ⟨k, hk, hat⟩ := column?_of_mem h
  obtain ⟨hlt, hname⟩ := List.getElem?_eq_some_iff.1 hat
  rw [cell?, hk, rows_ofRuns hne, List.getElem?_map]
  cases (byIteration results)[i]? with
  | none => rfl
  | some run => simp [row_columns, List.getElem?_append_left, hlt, hname]

/-- The number that a row shows for an output is that of the last leaf spelled like it. -/
theorem number_of_cell (results : List Run) (name : String) (i : Nat) :
    ((ofRuns results).cell? i ("output." ++ name)).bind Json.asNumber? =
      (byIteration results)[i]?.bind fun run =>
        (Json.lastLeaf? name run.outputs).bind Json.asNumber? := by
  rw [show "output." ++ name = Group.output.column name from rfl]
  by_cases h : Group.output.column name ∈ columns results
  · rw [cell?_of_mem h]
    cases (byIteration results)[i]? with
    | none => rfl
    | some run =>
        simp only [Option.map_some, Option.bind_some, find?_cells, Group.values]
        cases Json.lastLeaf? name run.outputs <;> rfl
  · have hstart : Starts 'o' (Group.output.column name) := starts_append (by decide) name
    have hcolumn : (ofRuns results).column? (Group.output.column name) = none := by
      refine column?_of_not_mem h ?_ ?_ <;>
        exact fun he => absurd (he ▸ hstart) (by decide)
    rw [cell?, hcolumn]
    cases hi : (byIteration results)[i]? with
    | none => rfl
    | some run =>
        have hnone : Json.lastLeaf? name run.outputs = none :=
          lastLeaf?_eq_none h (mem_byIteration.1 (List.mem_of_getElem? hi))
        simp [hnone]

theorem iter_not_mem_columns (results : List Run) : "iter" ∉ columns results := by
  intro h
  obtain h | h := starts_columns h <;> exact absurd h (by decide)

theorem cell?_iter_ofRuns (results : List Run) (i : Nat) :
    (ofRuns results).cell? i "iter" =
      (byIteration results)[i]?.map fun run => Json.ofNat run.metadata.iteration := by
  by_cases hne : results = []
  · simp [hne, ofRuns, cell?, rows, byIteration]
  · have hnone : (columns results).findIdx? (· = "iter") = none :=
      List.findIdx?_eq_none_iff.2 fun n hn =>
        decide_eq_false fun he => iter_not_mem_columns results (he ▸ hn)
    have hcolumn : (ofRuns results).column? "iter" = some ((columns results).length + 1) := by
      simp [column?, header_ofRuns hne, List.findIdx?_append, List.findIdx?_map, Function.comp_def,
        hnone, List.findIdx?_cons, Nat.add_comm]
    rw [cell?, hcolumn, rows_ofRuns hne, List.getElem?_map]
    cases (byIteration results)[i]? with
    | none => rfl
    | some run => simp [row]

/-- What the row of a run shows under a name; nothing to show is shown as null. -/
def shown (name : String) (run : Run) : Json :=
  if name = "state" then stateCell run
  else if name = "iter" then Json.ofNat run.metadata.iteration
  else (OrderedMap.find? name (OrderedMap.extend (paramLeaves run) (outputLeaves run))).getD .null

theorem shown_of_mem (h : name ∈ columns results) (run : Run) : shown name run =
    (OrderedMap.find? name (OrderedMap.extend (paramLeaves run) (outputLeaves run))).getD .null := by
  have hstate : name ≠ "state" := fun he => state_not_mem_columns results (he ▸ h)
  have hiter : name ≠ "iter" := fun he => iter_not_mem_columns results (he ▸ h)
  rw [shown, if_neg hstate, if_neg hiter]

/-- A row has a cell under each name with a column, and under no other. -/
theorem cell?_eq {i : Nat} (hi : (byIteration results)[i]? = some run) (name : String) :
    (ofRuns results).cell? i name =
      if name ∈ columns results ∨ name ∈ ["state", "iter"] then some (shown name run) else none := by
  by_cases h : name ∈ columns results
  · rw [if_pos (.inl h), cell?_of_mem h, hi, shown_of_mem h]
    rfl
  · by_cases hstate : name = "state"
    · rw [hstate, cell?_state_ofRuns, hi, if_pos (.inr (by decide))]
      rfl
    · by_cases hiter : name = "iter"
      · rw [hiter, cell?_iter_ofRuns, hi, if_pos (.inr (by decide))]
        rfl
      · rw [if_neg (by simp [h, hstate, hiter]), cell?, column?_of_not_mem h hstate hiter]
        rfl

theorem eq_of_cell?_iter {results : List Run} {run row : Run} {i : Nat}
    (hd : (results.map fun r => r.metadata.iteration).Nodup) (hrun : run ∈ results)
    (hi : (byIteration results)[i]? = some row)
    (h : (ofRuns results).cell? i "iter" = some (Json.ofNat run.metadata.iteration)) :
    row = run := by
  rw [cell?_iter_ofRuns, hi, Option.map_some, Option.some.injEq] at h
  have hrow := mem_byIteration.1 (List.mem_of_getElem? hi)
  exact List.inj_on_of_nodup_map hd hrow hrun (Int.ofNat_inj.1 (by simpa [Json.ofNat] using h))

end IterationTable

end Experiment
