import Experiment.Proofs.Decoding
import Experiment.Proofs.TableLayout
import Experiment.Run.Codec

/-!
# Reading parameters and outputs back from the table

A cell is found by its iteration and its column. In the column of a leaf it is the last leaf of that
child which is spelled so, and null if there is none. Spellings of names without dots are those of
one way only, and where every object holds a name once no two leaves are on one way, so that each
leaf of each child is found again. The order of the results decides on the order of columns, not on
any cell.
-/

namespace Experiment

namespace Json

mutual
/-- Down to the leaves every object holds a name once. -/
def Keyed : Json → Prop
  | .object fields => (OrderedMap.keys fields).Nodup ∧ KeyedFields fields
  | _ => True

def KeyedFields : List (String × Json) → Prop
  | [] => True
  | (_, value) :: rest => Keyed value ∧ KeyedFields rest
end

theorem keyedFields_iff {fields : List (String × Json)} :
    KeyedFields fields ↔ ∀ p ∈ fields, p.2.Keyed := by
  induction fields with
  | nil => simp [KeyedFields]
  | cons p rest ih => rw [KeyedFields, List.forall_mem_cons, ih]

theorem keyed_of_word {w : Word} {v : Json} (h : w.toJson? = some v) : v.Keyed := by
  cases v with
  | object fields =>
      unfold Word.toJson? at h
      split at h
      · unfold Word.inferred? at h
        grind [Word.intJson?, Word.floatJson]
      · cases h
      · obtain ⟨b, -, h⟩ := Option.map_eq_some_iff.1 h
        cases h
      · obtain ⟨i, -, h⟩ := Option.bind_eq_some_iff.1 h
        grind [Word.intJson?]
      · obtain ⟨f, -, h⟩ := Option.map_eq_some_iff.1 h
        grind [Word.floatJson]
      · split at h <;> cases h
  | null | bool _ | number _ | string _ | array _ => trivial

mutual
theorem keyed_of_toJson? (doc : Document) {levels : Nat} {v : Json}
    (h : doc.toJson? levels = some v) : v.Keyed := by
  cases doc with
  | mapping entries =>
      cases levels with
      | zero => cases h
      | succ levels =>
          obtain ⟨fields, hfields, rfl⟩ := Option.map_eq_some_iff.1 h
          refine ⟨OrderedMap.nodup_keys_ofPairs fields, keyedFields_iff.2 fun p hp => ?_⟩
          exact keyed_of_entriesToJson? entries hfields p (OrderedMap.mem_of_mem_ofPairs hp)
  | sequence items =>
      cases levels with
      | zero => cases h
      | succ levels =>
          obtain ⟨values, -, rfl⟩ := Option.map_eq_some_iff.1 h
          trivial
  | word w => exact keyed_of_word h
  | null | bool _ | number _ | string _ => cases h; trivial
  | unreadable | tagged _ _ => cases h

theorem keyed_of_entriesToJson? (entries : List (Option String × Document)) {levels : Nat}
    {fields : List (String × Json)} (h : Document.entriesToJson? levels entries = some fields) :
    ∀ p ∈ fields, p.2.Keyed := by
  cases entries with
  | nil =>
      cases h
      exact nofun
  | cons e rest =>
      obtain ⟨key, doc⟩ := e
      obtain ⟨name, -, h⟩ := Option.bind_eq_some_iff.1 h
      obtain ⟨v, hv, h⟩ := Option.bind_eq_some_iff.1 h
      obtain ⟨after, hafter, h⟩ := Option.bind_eq_some_iff.1 h
      cases h
      exact List.forall_mem_cons.2 ⟨keyed_of_toJson? doc hv, keyed_of_entriesToJson? rest hafter⟩
end

theorem keyed_of_dictionary {r : Reading} {doc : Document} {m : OrderedMap Json}
    (h : Decoder.dictionary Decoder.value r doc = some m) : (Json.object m).Keyed := by
  obtain ⟨⟨r, entries⟩, -, h⟩ := Option.bind_eq_some_iff.1 h
  obtain ⟨pairs, hpairs, h⟩ := Option.bind_eq_some_iff.1 h
  cases h
  refine ⟨OrderedMap.nodup_keys_ofPairs pairs, keyedFields_iff.2 fun p hp => ?_⟩
  obtain ⟨e, -, hvalue⟩ :=
    Decoder.exists_of_eachEntry hpairs p (OrderedMap.mem_of_mem_ofPairs hp)
  exact keyed_of_toJson? e.2 hvalue

/-- The names on the way to a leaf are without dots. -/
def Dotless (m : OrderedMap Json) : Prop :=
  ∀ l ∈ fieldLeaves m, ∀ key ∈ l.1, '.' ∉ key.toList

instance (m : OrderedMap Json) : Decidable (Dotless m) :=
  inferInstanceAs (Decidable (∀ l ∈ fieldLeaves m, ∀ key ∈ l.1, '.' ∉ key.toList))

mutual
theorem Keyed.nodup_leaves {v : Json} (h : v.Keyed) : ((leaves v).map Prod.fst).Nodup := by
  cases v with
  | object fields =>
      obtain ⟨hn, hf⟩ := h
      exact hf.nodup_fieldLeaves hn
  | null | bool _ | number _ | string _ | array _ => exact List.nodup_singleton _

theorem KeyedFields.nodup_fieldLeaves {fields : List (String × Json)} (h : KeyedFields fields)
    (hn : (OrderedMap.keys fields).Nodup) : ((fieldLeaves fields).map Prod.fst).Nodup := by
  cases fields with
  | nil => exact List.nodup_nil
  | cons p rest =>
      obtain ⟨hvalue, hfields⟩ := h
      obtain ⟨hp, hrest⟩ := List.nodup_cons.1 hn
      have hbelow : ((leaves p.2).map fun l => p.1 :: l.1).Nodup := by
        have := hvalue.nodup_leaves.map (List.cons_injective (a := p.1))
        rwa [List.map_map] at this
      rw [fieldLeaves, List.map_append, List.map_map]
      refine List.nodup_append.2 ⟨hbelow, hfields.nodup_fieldLeaves hrest, ?_⟩
      intro a ha b hb he
      obtain ⟨below, -, rfl⟩ := List.mem_map.1 ha
      obtain ⟨after, hafter, rfl⟩ := List.mem_map.1 hb
      obtain ⟨key, hkey, names, hway⟩ := ne_nil_of_mem_fieldLeaves hafter
      have hhead : p.1 = key := (List.cons.inj (he.trans hway)).1
      exact hp (hhead ▸ hkey)
end

theorem eq_of_append_dot {as bs cs ds : List Char} (ha : '.' ∉ as) (hc : '.' ∉ cs)
    (h : as ++ '.' :: bs = cs ++ '.' :: ds) : as = cs ∧ bs = ds := by
  have hfront : ∀ xs ys : List Char, '.' ∉ xs →
      (xs ++ '.' :: ys).takeWhile (fun c => c ≠ '.') = xs := by
    intro xs ys hx
    have hpos : ∀ x ∈ xs, decide (x ≠ '.') = true := by
      intro x hmem
      exact decide_eq_true fun he => hx (he ▸ hmem)
    rw [List.takeWhile_append_of_pos hpos]
    simp
  have heq : as = cs := by rw [← hfront as bs ha, h, hfront cs ds hc]
  subst heq
  exact ⟨rfl, (List.cons.inj (List.append_cancel_left h)).2⟩

theorem toList_spelling (name key : String) (rest : List String) :
    (spelling (name :: key :: rest)).toList =
      name.toList ++ '.' :: (spelling (key :: rest)).toList := by
  have hdotted : spelling (name :: key :: rest) = name ++ "." ++ spelling (key :: rest) :=
    dotted_append (name ++ ".") key rest
  simp [hdotted]

theorem dot_mem_spelling (name key : String) (rest : List String) :
    '.' ∈ (spelling (name :: key :: rest)).toList := by
  simp [toList_spelling]

/-- Names without dots are told by their spelling. -/
theorem spelling_inj {a b : String} {as bs : List String} (ha : ∀ key ∈ a :: as, '.' ∉ key.toList)
    (hb : ∀ key ∈ b :: bs, '.' ∉ key.toList) (h : spelling (a :: as) = spelling (b :: bs)) :
    a :: as = b :: bs := by
  induction as generalizing a b bs with
  | nil =>
      cases bs with
      | nil => exact congrArg (· :: []) h
      | cons key rest =>
          have hdot : '.' ∈ (spelling [a]).toList := h ▸ dot_mem_spelling b key rest
          exact absurd hdot (ha a List.mem_cons_self)
  | cons name as ih =>
      cases bs with
      | nil =>
          have hdot : '.' ∈ (spelling [b]).toList := h ▸ dot_mem_spelling a name as
          exact absurd hdot (hb b List.mem_cons_self)
      | cons key rest =>
          obtain ⟨ha, has⟩ := List.forall_mem_cons.1 ha
          obtain ⟨hb, hbs⟩ := List.forall_mem_cons.1 hb
          have hlist := congrArg String.toList h
          rw [toList_spelling, toList_spelling] at hlist
          obtain ⟨hhead, htail⟩ := eq_of_append_dot ha hb hlist
          rw [String.toList_injective hhead, ih has hbs (String.toList_injective htail)]

/-- Each leaf is the last one of its spelling where there is no other. -/
theorem lastLeaf?_of_mem {m : OrderedMap Json} (hk : (Json.object m).Keyed) (hd : Dotless m)
    {l : List String × Json} (hl : l ∈ fieldLeaves m) : lastLeaf? (spelling l.1) m = some l.2 := by
  have hways : ∀ a ∈ (fieldLeaves m).map Prod.fst, ∀ b ∈ (fieldLeaves m).map Prod.fst,
      spelling a = spelling b → a = b := by
    intro a ha b hb h
    obtain ⟨l, hl, rfl⟩ := List.mem_map.1 ha
    obtain ⟨q, hq, rfl⟩ := List.mem_map.1 hb
    obtain ⟨key, -, rest, hway⟩ := ne_nil_of_mem_fieldLeaves hl
    obtain ⟨name, -, names, hother⟩ := ne_nil_of_mem_fieldLeaves hq
    rw [hway, hother] at h ⊢
    exact spelling_inj (hway ▸ hd l hl) (hother ▸ hd q hq) h
  have hnodup : (OrderedMap.keys (spelled m)).Nodup := by
    have := List.Nodup.map_on hways (hk.2.nodup_fieldLeaves hk.1)
    rw [OrderedMap.keys, spelled, List.map_map]
    rwa [List.map_map] at this
  rw [lastLeaf?, OrderedMap.find?_reverse hnodup]
  exact OrderedMap.find?_of_mem hnodup (p := (spelling l.1, l.2)) (List.mem_map.2 ⟨l, hl, rfl⟩)

end Json

theorem Decoder.Fields.exists_of_orElse {α : Type} {f : Decoder.Fields} {name : String}
    {fallback x : α} {d : Decoder α} (h : f.orElse name fallback d = some x) :
    x = fallback ∨ ∃ doc, d f.reading doc = some x := by
  unfold orElse at h
  split at h
  next doc _ => exact .inr ⟨doc, h⟩
  next => exact .inl (Option.some.inj h).symm

theorem RunSpec.keyed_of_decode {r : Reading} {doc : Document} {spec : RunSpec}
    (h : decode r doc = some spec) : (Json.object spec.parameters).Keyed := by
  simp only [decode, Decoder.bind_eq_some_iff] at h
  obtain ⟨f, -, parameters, hparameters, _, -, _, -, _, -, _, -, _, -, _, -, _, -, h⟩ := h
  cases h
  obtain rfl | ⟨_, hdoc⟩ := Decoder.Fields.exists_of_orElse hparameters
  · exact ⟨List.nodup_nil, trivial⟩
  · exact Json.keyed_of_dictionary hdoc

theorem RunStatus.keyed_of_decode {r : Reading} {doc : Document} {status : RunStatus}
    (h : decode r doc = some status) : (Json.object status.outputs).Keyed := by
  simp only [decode, Decoder.bind_eq_some_iff] at h
  obtain ⟨f, -, _, -, outputs, houtputs, _, -, _, -, _, -, _, -, _, -, _, -, h⟩ := h
  cases h
  obtain rfl | ⟨_, hdoc⟩ := Decoder.Fields.exists_of_orElse houtputs
  · exact ⟨List.nodup_nil, trivial⟩
  · exact Json.keyed_of_dictionary hdoc

namespace IterationTable
variable {results other : List Run} {run : Run} {g : Group} {leaf : String} {iteration : Nat}

theorem Group.keyed_of_decode {r : Reading} {doc : Document} (h : Run.decode r doc = some run)
    (g : Group) : (Json.object (g.values run)).Keyed := by
  have hnone : (Json.object []).Keyed := ⟨List.nodup_nil, trivial⟩
  simp only [Run.decode, Decoder.bind_eq_some_iff] at h
  obtain ⟨f, -, _, -, spec, hspec, status, hstatus, h⟩ := h
  cases h
  cases g with
  | param =>
      obtain rfl | ⟨_, hdoc⟩ := Decoder.Fields.exists_of_orElse hspec
      · exact hnone
      · exact RunSpec.keyed_of_decode hdoc
  | output =>
      cases status with
      | none => exact hnone
      | some status =>
          obtain h | ⟨_, hdoc⟩ := Decoder.Fields.exists_of_orElse hstatus
          · cases h
          · exact RunStatus.keyed_of_decode (Decoder.eq_some_of_optional hdoc).2

/-- The first row of an iteration. -/
def rowOf? (t : IterationTable) (iteration : Nat) : Option Nat :=
  (List.range t.rows.length).find? fun i => t.cell? i "iter" = some (Json.ofNat iteration)

/-- The cell of an iteration under a name. -/
def cellOf? (t : IterationTable) (iteration : Nat) (name : String) : Option Json :=
  (t.rowOf? iteration).bind fun i => t.cell? i name

theorem rowOf?_eq_none (h : ∀ run ∈ results, run.metadata.iteration ≠ iteration) :
    (ofRuns results).rowOf? iteration = none := by
  refine List.find?_eq_none.2 fun i _ hi => ?_
  have hcell := of_decide_eq_true hi
  rw [cell?_iter_ofRuns] at hcell
  obtain ⟨run, hrun, heq⟩ := Option.map_eq_some_iff.1 hcell
  refine h run (mem_byIteration.1 (List.mem_of_getElem? hrun)) (Int.ofNat_inj.1 ?_)
  simpa [Json.ofNat] using heq

theorem rowOf?_of_mem (hd : (results.map fun r => r.metadata.iteration).Nodup)
    (hr : run ∈ results) : ∃ i, (ofRuns results).rowOf? run.metadata.iteration = some i ∧
      (byIteration results)[i]? = some run := by
  obtain ⟨i, hi⟩ := List.getElem?_of_mem (mem_byIteration.2 hr)
  have hiter : (ofRuns results).cell? i "iter" = some (Json.ofNat run.metadata.iteration) := by
    rw [cell?_iter_ofRuns, hi]
    rfl
  have hlt : i < (ofRuns results).rows.length := by
    rw [length_rows_ofRuns, ← List.length_mergeSort]
    exact (List.getElem?_eq_some_iff.1 hi).1
  cases hrow : (ofRuns results).rowOf? run.metadata.iteration with
  | none => exact absurd (decide_eq_true hiter) (List.find?_eq_none.1 hrow i (List.mem_range.2 hlt))
  | some j =>
      rw [rowOf?] at hrow
      have hfound := List.find?_some hrow
      have hcell := of_decide_eq_true hfound
      obtain ⟨row, hj, -⟩ := Option.map_eq_some_iff.1 (cell?_iter_ofRuns results j ▸ hcell)
      exact ⟨j, rfl, eq_of_cell?_iter hd hr hj hcell ▸ hj⟩

theorem cellOf?_of_mem (hd : (results.map fun r => r.metadata.iteration).Nodup)
    (hr : run ∈ results) (name : String) :
    (ofRuns results).cellOf? run.metadata.iteration name =
      if name ∈ columns results ∨ name ∈ ["state", "iter"] then some (shown name run) else none := by
  obtain ⟨i, hi, hrow⟩ := rowOf?_of_mem hd hr
  rw [cellOf?, hi, Option.bind_some, cell?_eq hrow]

theorem mem_columns_iff {name : String} : name ∈ columns results ↔
    ∃ run ∈ results, name ∈ (paramLeaves run).keys ∨ name ∈ (outputLeaves run).keys := by
  simp only [columns, List.mem_append, mem_distinct, List.mem_flatMap, ← exists_or, ← and_or_left]

theorem cellOf?_perm (h : other.Perm results)
    (hd : (results.map fun r => r.metadata.iteration).Nodup) (iteration : Nat) (name : String) :
    (ofRuns other).cellOf? iteration name = (ofRuns results).cellOf? iteration name := by
  have hother : (other.map fun r => r.metadata.iteration).Nodup :=
    (h.map fun r => r.metadata.iteration).symm.nodup hd
  have hcolumns : name ∈ columns other ↔ name ∈ columns results := by
    simp only [mem_columns_iff, h.mem_iff]
  by_cases hrow : ∃ run ∈ results, run.metadata.iteration = iteration
  · obtain ⟨run, hrun, rfl⟩ := hrow
    rw [cellOf?_of_mem hd hrun, cellOf?_of_mem hother (h.mem_iff.2 hrun)]
    simp only [hcolumns]
  · have hnone : ∀ run ∈ results, run.metadata.iteration ≠ iteration := by
      simpa using hrow
    rw [cellOf?, cellOf?, rowOf?_eq_none hnone,
      rowOf?_eq_none fun run hrun => hnone run (h.mem_iff.1 hrun), Option.bind_none,
      Option.bind_none]

theorem column_mem_header : Json.string (g.column leaf) ∈ (ofRuns results).header ↔
    g.column leaf ∈ columns results := by
  by_cases hne : results = []
  · subst hne
    exact iff_of_false List.not_mem_nil List.not_mem_nil
  · have hother : g.column leaf ∉ ["state", "iter"] := by
      cases g <;> simp [Group.column, Group.name, ← String.toList_inj]
    rw [header_ofRuns hne, List.mem_map_of_injective fun _ _ h => Json.string.inj h,
      List.mem_append, or_iff_left hother]

theorem column_mem_columns (hr : run ∈ results) {l : List String × Json}
    (hl : l ∈ Json.fieldLeaves (g.values run)) :
    g.column (Json.spelling l.1) ∈ columns results := by
  refine Classical.byContradiction fun h => ?_
  have hnone := lastLeaf?_eq_none h hr
  refine OrderedMap.find?_eq_none_iff.1 hnone (Json.spelling l.1, l.2) ?_ rfl
  exact List.mem_reverse.2 (List.mem_map.2 ⟨l, hl, rfl⟩)

theorem cellOf?_column (hd : (results.map fun r => r.metadata.iteration).Nodup)
    (hr : run ∈ results) (h : g.column leaf ∈ columns results) :
    (ofRuns results).cellOf? run.metadata.iteration (g.column leaf) =
      some ((Json.lastLeaf? leaf (g.values run)).getD .null) := by
  rw [cellOf?_of_mem hd hr, if_pos (.inl h), shown_of_mem h, find?_cells]

/-- Each column shows of each child the last leaf that is spelled so, and each leaf has a column.
Where names are without dots every leaf is found again, the maps holding each name once as all do
that are read, and no cell depends on the order of the results. -/
theorem cells_ofRuns (results : List Run)
    (hd : (results.map fun r => r.metadata.iteration).Nodup) :
    (∀ run ∈ results, ∀ (g : Group) (leaf : String),
      Json.string (g.column leaf) ∈ (ofRuns results).header →
        (ofRuns results).cellOf? run.metadata.iteration (g.column leaf) =
          some ((Json.lastLeaf? leaf (g.values run)).getD .null)) ∧
    (∀ run ∈ results, ∀ g : Group, ∀ l ∈ Json.fieldLeaves (g.values run),
      Json.string (g.column (Json.spelling l.1)) ∈ (ofRuns results).header) ∧
    (∀ run ∈ results, ∀ g : Group,
      (Json.object (g.values run)).Keyed → Json.Dotless (g.values run) →
        ∀ l ∈ Json.fieldLeaves (g.values run),
          (ofRuns results).cellOf? run.metadata.iteration (g.column (Json.spelling l.1)) =
            some l.2) ∧
    (∀ other, other.Perm results → ∀ iteration name,
      (ofRuns other).cellOf? iteration name = (ofRuns results).cellOf? iteration name) := by
  refine ⟨fun run hr g leaf h => ?_, fun run hr g l hl => ?_, fun run hr g hk hdot l hl => ?_,
    fun other h => cellOf?_perm h hd⟩
  · exact cellOf?_column hd hr (column_mem_header.1 h)
  · exact column_mem_header.2 (column_mem_columns hr hl)
  · rw [cellOf?_column hd hr (column_mem_columns hr hl), Json.lastLeaf?_of_mem hk hdot hl,
      Option.getD_some]

/-- Of two leaves of one spelling the last one is shown, and a child without such a leaf shows null;
nested leaves are found again, also from the results the other way round. -/
theorem cells_ofRuns_nested :
    let nested : Run :=
      { metadata := { iteration := 2 }
        spec := { parameters := [("opt", .object [("lr", .number (.int 1)), ("betas", .array [])])] } }
    let clashing : Run :=
      { metadata := { iteration := 1 }
        spec := { parameters := [("opt", .object [("lr", .null)]), ("opt.lr", .bool true)] } }
    let results := [nested, clashing]
    (results.map fun r => r.metadata.iteration).Nodup ∧
      (Json.object nested.spec.parameters).Keyed ∧ Json.Dotless nested.spec.parameters ∧
      (ofRuns results).cellOf? 1 "param.opt.lr" = some (.bool true) ∧
      (ofRuns results).cellOf? 1 "param.opt.betas" = some .null ∧
      (ofRuns results).cellOf? 2 "param.opt.lr" = some (.number (.int 1)) ∧
      (ofRuns results.reverse).cellOf? 2 "param.opt.betas" = some (.array []) := by
  intro nested clashing results
  have hd : (results.map fun r => r.metadata.iteration).Nodup := by decide
  have hk : (Json.object nested.spec.parameters).Keyed := by
    simp [nested, Json.Keyed, Json.KeyedFields, OrderedMap.keys]
  have hdot : Json.Dotless nested.spec.parameters := by
    decide +kernel
  have hn : nested ∈ results := List.mem_cons_self
  have hc : clashing ∈ results := List.mem_cons_of_mem _ List.mem_cons_self
  obtain ⟨hcell, hheader, hfound, hperm⟩ := cells_ofRuns results hd
  refine ⟨hd, hk, hdot, ?_, ?_, ?_, ?_⟩
  · exact hcell clashing hc .param "opt.lr" (by decide +kernel)
  · exact hcell clashing hc .param "opt.betas" (by decide +kernel)
  · exact hfound nested hn .param hk hdot (["opt", "lr"], .number (.int 1)) (by decide +kernel)
  · rw [hperm _ (List.reverse_perm results)]
    exact hfound nested hn .param hk hdot (["opt", "betas"], .array []) (by decide +kernel)

end IterationTable

end Experiment
