import Experiment.Proofs.Cells

/-!
# The layout of the table of a sweep

The columns are named after leaves: the parameters of all children come before their outputs, both
in the order in which they first come in the results, and the state and the iteration come last.
Whatever parameters and outputs are called, no name is a column twice and none is that of the state
or the iteration. So every line is as long as the header, and each child fills one of them, in the
order of iterations; children of one iteration stay in the order of the results.
-/

namespace Experiment

namespace IterationTable
variable {results : List Run} {run : Run} {name : String}

/-- Each of the names once, in the order in which they first come. -/
structure FirstOf (all names : List String) : Prop where
  mem : ∀ n, n ∈ names ↔ n ∈ all
  ordered : names.Pairwise fun a b => all.idxOf a < all.idxOf b

theorem firstOf_distinct (all : List String) : FirstOf all (distinct all) := by
  refine ⟨fun n => mem_distinct, ?_⟩
  induction all using List.reverseRecOn with
  | nil => exact List.Pairwise.nil
  | append_singleton all n ih =>
      have hold : (distinct all).Pairwise fun a b =>
          (all ++ [n]).idxOf a < (all ++ [n]).idxOf b := by
        refine ih.imp_of_mem fun ha hb hab => ?_
        rwa [List.idxOf_append_of_mem (mem_distinct.1 ha),
          List.idxOf_append_of_mem (mem_distinct.1 hb)]
      rw [distinct_concat]
      split
      next => exact hold
      next hn =>
        refine List.pairwise_append.2 ⟨hold, List.pairwise_singleton _ _, fun a ha b hb => ?_⟩
        rw [List.mem_singleton.1 hb, List.idxOf_append_of_mem (mem_distinct.1 ha),
          List.idxOf_append_of_notMem fun h => hn (mem_distinct.2 h)]
        exact Nat.lt_add_right _ (List.idxOf_lt_length_iff.2 (mem_distinct.1 ha))

section Distinct

theorem distinct_map {f : String → String} (hf : Function.Injective f) (names : List String) :
    distinct (names.map f) = (distinct names).map f := by
  induction names using List.reverseRecOn with
  | nil => rfl
  | append_singleton names n ih =>
      rw [List.map_append, List.map_singleton, distinct_concat, distinct_concat, ih]
      simp only [List.mem_map_of_injective hf]
      split
      next => rfl
      next => rw [List.map_append, List.map_singleton]

theorem distinct_append_distinct (front names : List String) :
    distinct (front ++ distinct names) = distinct (front ++ names) := by
  induction names using List.reverseRecOn with
  | nil => rfl
  | append_singleton names n ih =>
      rw [← List.append_assoc front names, distinct_concat (front ++ names), distinct_concat names]
      by_cases hn : n ∈ distinct names
      · have hlater : n ∈ distinct (front ++ names) :=
          mem_distinct.2 (List.mem_append_right _ (mem_distinct.1 hn))
        rw [if_pos hn, if_pos hlater, ih]
      · rw [if_neg hn, ← List.append_assoc, distinct_concat, ih]

theorem distinct_distinct_append (names back : List String) :
    distinct (distinct names ++ back) = distinct (names ++ back) := by
  induction back using List.reverseRecOn with
  | nil =>
      rw [List.append_nil, List.append_nil]
      exact distinct_append_distinct [] names
  | append_singleton back n ih =>
      rw [← List.append_assoc, ← List.append_assoc, distinct_concat, distinct_concat, ih]

/-- Names that come again in one part may be left out there already. -/
theorem distinct_flatMap {α : Type} (parts : List α) (f : α → List String) :
    distinct (parts.flatMap fun a => distinct (f a)) = distinct (parts.flatMap f) := by
  induction parts with
  | nil => rfl
  | cons a rest ih =>
      rw [List.flatMap_cons, List.flatMap_cons, distinct_distinct_append,
        ← distinct_append_distinct, ih, distinct_append_distinct]

theorem keys_ofPairs {α : Type} (pairs : List (String × α)) :
    (OrderedMap.ofPairs pairs).keys = distinct (OrderedMap.keys pairs) := by
  induction pairs using List.reverseRecOn with
  | nil => rfl
  | append_singleton pairs p ih =>
      have hstep : OrderedMap.ofPairs (pairs ++ [p]) = (OrderedMap.ofPairs pairs).insert p.1 p.2 :=
        List.foldl_append
      have hkeys : OrderedMap.keys (pairs ++ [p]) = OrderedMap.keys pairs ++ [p.1] :=
        List.map_append
      rw [hstep, hkeys, distinct_concat, ← ih]
      split
      next hp => exact OrderedMap.keys_insert_of_mem p.2 hp
      next hp => exact OrderedMap.keys_insert_of_not_mem p.2 hp

end Distinct

/-- The spellings of all leaves, as often as they come in the results. -/
def Group.spellings (g : Group) (results : List Run) : List String :=
  results.flatMap fun run => (Json.spelled (g.values run)).map Prod.fst

theorem Group.column_injective (g : Group) : Function.Injective g.column :=
  fun _ _ h => (String.append_right_inj _).1 h

theorem keys_leaves (g : Group) (m : OrderedMap Json) :
    (leaves g.name m).keys = distinct ((Json.spelled m).map fun p => g.column p.1) := by
  rw [leaves_eq, keys_ofPairs, OrderedMap.keys, List.map_map]
  rfl

theorem columns_of_group (g : Group) (results : List Run) :
    distinct (results.flatMap fun run => (leaves g.name (g.values run)).keys) =
      (distinct (g.spellings results)).map g.column := by
  simp only [keys_leaves]
  rw [distinct_flatMap, ← distinct_map g.column_injective, Group.spellings, List.map_flatMap]
  simp only [List.map_map]
  rfl

theorem columns_eq (results : List Run) : columns results =
    (distinct (Group.param.spellings results)).map Group.param.column ++
      (distinct (Group.output.spellings results)).map Group.output.column := by
  rw [← columns_of_group, ← columns_of_group]
  rfl

/-- What a child shows of the leaves with these spellings. -/
def Group.cells (g : Group) (spellings : List String) (run : Run) : List Json :=
  spellings.map fun n => (Json.lastLeaf? n (g.values run)).getD .null

theorem row_eq (results : List Run) (run : Run) : row (columns results) run =
    Group.param.cells (distinct (Group.param.spellings results)) run ++
      Group.output.cells (distinct (Group.output.spellings results)) run ++
      [stateCell run, Json.ofNat run.metadata.iteration] := by
  rw [row_columns, columns_eq, List.map_append, List.map_map, List.map_map]
  simp only [Group.cells, Function.comp_def, find?_cells]

/-- The results by their iterations; those of one iteration are not exchanged. -/
structure InOrder (results children : List Run) : Prop where
  perm : children.Perm results
  ascending : children.Pairwise fun a b => a.metadata.iteration ≤ b.metadata.iteration
  stable : ∀ k, (children.filter fun r => r.metadata.iteration = k) =
    results.filter fun r => r.metadata.iteration = k

theorem inOrder_byIteration (results : List Run) : InOrder results (byIteration results) := by
  have htrans : ∀ a b c : Run, decide (a.metadata.iteration ≤ b.metadata.iteration) = true →
      decide (b.metadata.iteration ≤ c.metadata.iteration) = true →
      decide (a.metadata.iteration ≤ c.metadata.iteration) = true := by
    intro a b c hab hbc
    exact decide_eq_true (Nat.le_trans (of_decide_eq_true hab) (of_decide_eq_true hbc))
  have htotal : ∀ a b : Run, (decide (a.metadata.iteration ≤ b.metadata.iteration) ||
      decide (b.metadata.iteration ≤ a.metadata.iteration)) = true := by
    intro a b
    simpa using Nat.le_total _ _
  have hperm : (byIteration results).Perm results := List.mergeSort_perm results _
  refine ⟨hperm, (List.pairwise_mergeSort htrans htotal results).imp of_decide_eq_true, fun k => ?_⟩
  -- the children of one iteration are a sorted part of the results, which sorting keeps as it is
  have hpart : (results.filter fun r => r.metadata.iteration = k).Sublist (byIteration results) := by
    refine List.sublist_mergeSort htrans htotal ?_ List.filter_sublist
    refine List.pairwise_of_forall_mem_list fun a ha b hb => ?_
    have ha' := of_decide_eq_true (List.mem_filter.1 ha).2
    have hb' := of_decide_eq_true (List.mem_filter.1 hb).2
    exact decide_eq_true (Nat.le_of_eq (ha'.trans hb'.symm))
  have hkept := hpart.filter fun r => decide (r.metadata.iteration = k)
  simp only [List.filter_filter, Bool.and_self] at hkept
  exact (hkept.eq_of_length (hperm.filter _).length_eq.symm).symm

theorem state_iter_not_mem (results : List Run) :
    ∀ n ∈ columns results, n ∉ ["state", "iter"] := by
  intro n hn h
  rcases List.mem_pair.1 h with rfl | rfl
  · exact state_not_mem_columns results hn
  · exact iter_not_mem_columns results hn

theorem nodup_header (h : results ≠ []) : (ofRuns results).header.Nodup := by
  rw [header_ofRuns h]
  refine List.Nodup.map (fun a b hab => Json.string.inj hab) ?_
  refine List.nodup_append.2 ⟨nodup_columns results, by decide, fun a ha b hb he => ?_⟩
  exact state_iter_not_mem results a ha (he ▸ hb)

theorem length_of_mem_lines {line : List Json} (h : line ∈ (ofRuns results).lines) :
    line.length = (ofRuns results).header.length := by
  by_cases hne : results = []
  · subst hne
    cases h
  · have he : results.isEmpty = false := by simpa using hne
    rw [header_ofRuns hne, List.length_map, List.length_append]
    simp only [ofRuns, he, Bool.false_eq_true, if_false, List.mem_cons, List.mem_map] at h
    rcases h with rfl | ⟨run, -, rfl⟩
    · simp
    · simp [row]

theorem exists_cell?_of_length {t : IterationTable}
    (h : ∀ line ∈ t.lines, line.length = t.header.length) {k : Nat} (hk : k < t.rows.length)
    (hname : .string name ∈ t.header) : ∃ v, t.cell? k name = some v := by
  obtain ⟨c, hc⟩ : ∃ c, t.column? name = some c := by
    rw [← Option.isSome_iff_exists, column?, List.findIdx?_isSome, List.any_eq_true]
    exact ⟨_, hname, decide_eq_true rfl⟩
  have hlt : c < t.header.length := (List.findIdx?_eq_some_iff_getElem.1 hc).1
  have hline : t.rows[k] ∈ t.lines := List.mem_of_mem_drop (List.getElem_mem hk)
  have hcell : c < t.rows[k].length := by rw [h _ hline]; exact hlt
  exact ⟨t.rows[k][c], by simp [cell?, hc, hk, hcell]⟩

/-- How a table of results is laid out: its columns by the spellings of parameters and outputs, its
rows by the children. -/
structure Layout (results : List Run) (t : IterationTable) (params outputs : List String)
    (children : List Run) : Prop where
  firstParams : FirstOf (Group.param.spellings results) params
  firstOutputs : FirstOf (Group.output.spellings results) outputs
  inOrder : InOrder results children
  header : t.header =
    (params.map Group.param.column ++ outputs.map Group.output.column ++ ["state", "iter"]).map
      Json.string
  distinct : t.header.Nodup
  rows : t.rows = children.map fun run => Group.param.cells params run ++
    Group.output.cells outputs run ++ [stateCell run, Json.ofNat run.metadata.iteration]
  size : t.size = results.length + 1
  length : ∀ line ∈ t.lines, line.length = t.header.length
  cell : ∀ k < results.length, ∀ name, .string name ∈ t.header → ∃ v, t.cell? k name = some v

/-- Without results the table is empty. All others have a header of different names and one row a
child, as long as the header. -/
theorem layout_ofRuns (results : List Run) :
    (ofRuns []).lines = [] ∧
      (results ≠ [] → ∃ params outputs children,
        Layout results (ofRuns results) params outputs children) := by
  refine ⟨rfl, fun h => ⟨_, _, _, firstOf_distinct _, firstOf_distinct _,
    inOrder_byIteration results, ?_, nodup_header h, ?_, ?_, fun _ => length_of_mem_lines, ?_⟩⟩
  · rw [header_ofRuns h, columns_eq]
  · rw [rows_ofRuns h]
    exact List.map_congr_left fun run _ => row_eq results run
  · have he : results.isEmpty = false := by simpa using h
    simp [size, ofRuns, he, byIteration]
  · intro k hk name hname
    refine exists_cell?_of_length (fun _ => length_of_mem_lines) ?_ hname
    rw [length_rows_ofRuns]
    exact hk

/-- Names of other columns and dots in names lead to no column twice, and two children of one
iteration stay as they came. -/
theorem layout_ofRuns_namesakes :
    let results : List Run :=
      [{ metadata := { iteration := 2 }
         spec := { parameters := [("state", .null), ("a", .object [("b", .bool true)])] } },
       { metadata := { iteration := 1 }
         status := some { state := some .error, outputs := [("iter", .null)] } },
       { metadata := { iteration := 2 }
         spec := { parameters := [("a.b", .bool false), ("output.iter", .null)] } }]
    results ≠ [] ∧
      (∃ params outputs children, Layout results (ofRuns results) params outputs children) ∧
      (ofRuns results).header =
        ["param.state", "param.a.b", "param.output.iter", "output.iter", "state", "iter"].map
          Json.string := by
  intro results
  have hne : results ≠ [] := List.cons_ne_nil _ _
  exact ⟨hne, (layout_ofRuns results).2 hne, by decide +kernel⟩

end IterationTable

end Experiment
