import Experiment.Proofs.Cells
import Experiment.Proofs.Json.Magnitude
import Experiment.Sweep.Selector

/-!
# Which child is selected, and what the table shows of it

A selector looks its output up under this one name and compares doubles, the table shows the last
leaf that is spelled like the output. So the selected child is the best one by its own entry, and
the table bears it out exactly where entries and leaves agree on which children have a number and on
how the numbers are ordered. They do so where nothing else is spelled like the output and no two of
its numbers are the same double.
-/

namespace Experiment

namespace Run

/-- The number under the very name of an output. -/
def entryNumber? (output : String) (run : Run) : Option Number :=
  (OrderedMap.find? output run.outputs).bind Json.asNumber?

/-- The number of the last leaf that is spelled like an output. -/
def leafNumber? (output : String) (run : Run) : Option Number :=
  (Json.lastLeaf? output run.outputs).bind Json.asNumber?

end Run

namespace IterationTable

/-- The number that a row shows for an output, if its child did not fail. -/
def number? (t : IterationTable) (output : String) (i : Nat) : Option Number :=
  if t.cell? i "state" = some (.string RunState.error.name) then none
  else (t.cell? i ("output." ++ output)).bind Json.asNumber?

theorem number?_ofRuns {results : List Run} {output : String} {i : Nat} {n : Number} :
    (ofRuns results).number? output i = some n ↔ ∃ run, (byIteration results)[i]? = some run ∧
      run.state? ≠ some .error ∧ run.leafNumber? output = some n := by
  rw [number?, cell?_state_ofRuns, number_of_cell]
  cases (byIteration results)[i]? with
  | none => simp
  | some run =>
      by_cases h : run.state? = some .error <;> simp [stateCell_eq_error, Run.leafNumber?, h]

theorem exists_number?_iff {results : List Run} {output : String} {n : Number} :
    (∃ i, (ofRuns results).number? output i = some n) ↔
      ∃ run ∈ results, run.state? ≠ some .error ∧ run.leafNumber? output = some n := by
  simp only [number?_ofRuns]
  constructor
  · rintro ⟨i, run, hi, h⟩
    exact ⟨run, mem_byIteration.1 (List.mem_of_getElem? hi), h⟩
  · rintro ⟨run, hrun, h⟩
    obtain ⟨i, hi⟩ := List.getElem?_of_mem (mem_byIteration.2 hrun)
    exact ⟨i, run, hi, h⟩

end IterationTable

namespace Selector
variable {s : Selector} {results seen : List Run} {run best : Run} {acc : Option (Run × Int)}

theorem score?_of_failed (h : run.state? = some .error) : s.score? run = none :=
  if_pos h

theorem score?_of_not_failed (h : run.state? ≠ some .error) :
    s.score? run = (run.entryNumber? s.output).map Number.rank :=
  if_neg h

theorem score?_eq_some {v : Int} : s.score? run = some v ↔
    run.state? ≠ some .error ∧ ∃ n, run.entryNumber? s.output = some n ∧ n.rank = v := by
  by_cases h : run.state? = some .error
  · simp [score?_of_failed h, h]
  · simp [score?_of_not_failed h, h]

/-- A child does not take the place of one with this value: it is worse, or as good and not
earlier. -/
def Yields (s : Selector) (best : Run) (top : Int) (run : Run) : Prop :=
  ∀ v, s.score? run = some v → Direction.better s.direction v top = false ∧
    (v = top → best.metadata.iteration ≤ run.metadata.iteration)

/-- The best of the children that were looked at, if one of them has a value. -/
def Optimal (s : Selector) (seen : List Run) : Option (Run × Int) → Prop
  | none => ∀ r ∈ seen, s.score? r = none
  | some (best, top) => best ∈ seen ∧ s.score? best = some top ∧ ∀ r ∈ seen, s.Yields best top r

theorem yields_of_none (h : s.score? run = none) (best : Run) (top : Int) :
    s.Yields best top run := by
  intro v hv
  rw [h] at hv
  cases hv

theorem yields_self {top : Int} (h : s.score? best = some top) : s.Yields best top best := by
  intro v hv
  rw [h] at hv
  cases hv
  cases s.direction <;> simp [Direction.better]

theorem Yields.trans {r : Run} {top value : Int} (h : s.Yields best top r)
    (hbetter : Direction.better s.direction value top = true ∨
      value = top ∧ run.metadata.iteration < best.metadata.iteration) :
    s.Yields run value r := by
  intro v hv
  obtain ⟨hworse, hties⟩ := h v hv
  cases hd : s.direction <;>
    simp only [hd, Direction.better, decide_eq_true_eq, decide_eq_false_iff_not]
      at hbetter hworse ⊢ <;>
    omega

theorem pick_of_none (h : s.score? run = none) : s.pick acc run = acc := by
  rw [pick, h]

theorem pick_none {value : Int} (h : s.score? run = some value) :
    s.pick none run = some (run, value) := by
  rw [pick, h]

section Pick
variable {value top : Int}

theorem pick_of_better (h : s.score? run = some value)
    (hbetter : Direction.better s.direction value top = true ∨
      value = top ∧ run.metadata.iteration < best.metadata.iteration) :
    s.pick (some (best, top)) run = some (run, value) := by
  rw [pick, h]
  simp only [Bool.or_eq_true, Bool.and_eq_true, decide_eq_true_eq, hbetter, if_true]

theorem pick_of_not_better (h : s.score? run = some value)
    (hbetter : ¬ (Direction.better s.direction value top = true ∨
      value = top ∧ run.metadata.iteration < best.metadata.iteration)) :
    s.pick (some (best, top)) run = some (best, top) := by
  rw [pick, h]
  simp only [Bool.or_eq_true, Bool.and_eq_true, decide_eq_true_eq, hbetter, if_false]

end Pick

theorem optimal_pick (h : s.Optimal seen acc) (run : Run) :
    s.Optimal (seen ++ [run]) (s.pick acc run) := by
  have hsnoc : ∀ {p : Run → Prop}, (∀ r ∈ seen, p r) → p run → ∀ r ∈ seen ++ [run], p r := by
    intro p hseen hrun r hr
    rcases List.mem_append.1 hr with hr | hr
    · exact hseen r hr
    · exact List.mem_singleton.1 hr ▸ hrun
  have hlast : run ∈ seen ++ [run] := List.mem_append_right _ (List.mem_singleton_self run)
  cases hv : s.score? run with
  | none =>
      rw [pick_of_none hv]
      cases acc with
      | none => exact hsnoc h hv
      | some p =>
          obtain ⟨hbest, htop, hall⟩ := h
          exact ⟨List.mem_append_left _ hbest, htop, hsnoc hall (yields_of_none hv _ _)⟩
  | some value =>
      cases acc with
      | none =>
          rw [pick_none hv]
          exact ⟨hlast, hv, hsnoc (fun r hr => yields_of_none (h r hr) _ _) (yields_self hv)⟩
      | some p =>
          obtain ⟨best, top⟩ := p
          obtain ⟨hbest, htop, hall⟩ := h
          by_cases hbetter : Direction.better s.direction value top = true ∨
              value = top ∧ run.metadata.iteration < best.metadata.iteration
          · rw [pick_of_better hv hbetter]
            exact ⟨hlast, hv, hsnoc (fun r hr => (hall r hr).trans hbetter) (yields_self hv)⟩
          · rw [pick_of_not_better hv hbetter]
            refine ⟨List.mem_append_left _ hbest, htop, hsnoc hall fun v hrun => ?_⟩
            rw [hv] at hrun
            cases hrun
            obtain ⟨hworse, hlater⟩ := not_or.1 hbetter
            exact ⟨Bool.eq_false_iff.2 hworse,
              fun he => Nat.le_of_not_lt fun hlt => hlater ⟨he, hlt⟩⟩

theorem optimal_foldl (h : s.Optimal seen acc) (results : List Run) :
    s.Optimal (seen ++ results) (results.foldl s.pick acc) := by
  induction results generalizing seen acc with
  | nil =>
      rw [List.append_nil]
      exact h
  | cons run rest ih =>
      rw [List.foldl_cons, List.append_cons]
      exact ih (optimal_pick h run)

theorem optimal_select (s : Selector) (results : List Run) :
    s.Optimal results (results.foldl s.pick none) :=
  optimal_foldl (show s.Optimal [] none from fun _ hr => absurd hr List.not_mem_nil) results

theorem select_eq_some (h : s.select results = some best) :
    best ∈ results ∧ ∃ top, s.score? best = some top ∧ ∀ r ∈ results, s.Yields best top r := by
  have ho := optimal_select s results
  unfold select at h
  cases hp : results.foldl s.pick none with
  | none =>
      rw [hp] at h
      cases h
  | some p =>
      rw [hp] at h ho
      obtain ⟨c, top⟩ := p
      cases h
      exact ⟨ho.1, top, ho.2⟩

theorem select_eq_none_iff : s.select results = none ↔ ∀ r ∈ results, s.score? r = none := by
  have ho := optimal_select s results
  unfold select
  cases hp : results.foldl s.pick none with
  | none =>
      rw [hp] at ho
      exact iff_of_true rfl ho
  | some p =>
      rw [hp] at ho
      obtain ⟨hbest, htop, -⟩ := ho
      refine ⟨fun h => by simp at h, fun h => ?_⟩
      rw [h p.1 hbest] at htop
      cases htop

/-- Is the first number at least as good as the second one? -/
def AtLeast : Direction → Number → Number → Prop
  | .max, n, m => m.units ≤ n.units
  | .min, n, m => n.units ≤ m.units

/-- Nothing is selected only where no row shows a number, and the row of the selected child shows
the best of them. -/
structure BornOut (s : Selector) (results : List Run) : Prop where
  nothing : s.select results = none ↔ ∀ i, (IterationTable.ofRuns results).number? s.output i = none
  best : ∀ best, s.select results = some best → ∃ i n,
    (IterationTable.ofRuns results).cell? i "iter" = some (Json.ofNat best.metadata.iteration) ∧
    (IterationTable.ofRuns results).number? s.output i = some n ∧
    ∀ j m, (IterationTable.ofRuns results).number? s.output j = some m → AtLeast s.direction n m

/-- The entries of children stand for what the table shows of them: they are numbers in the same
children, and as doubles they are ordered like the numbers that are shown. -/
structure Faithful (output : String) (results : List Run) : Prop where
  number : ∀ r ∈ results, r.state? ≠ some .error →
    ((r.entryNumber? output).isSome ↔ (r.leafNumber? output).isSome)
  order : ∀ r ∈ results, ∀ q ∈ results, r.state? ≠ some .error → q.state? ≠ some .error →
    ∀ a b x y, r.entryNumber? output = some a → q.entryNumber? output = some b →
      r.leafNumber? output = some x → q.leafNumber? output = some y →
      (a.rank < b.rank → x.units ≤ y.units) ∧ (a.rank = b.rank → x.units = y.units)

theorem select_eq_none : s.select results = none ↔
    ∀ r ∈ results, r.state? ≠ some .error → r.entryNumber? s.output = none := by
  rw [select_eq_none_iff]
  refine forall₂_congr fun r _ => ?_
  by_cases h : r.state? = some .error
  · simp [score?_of_failed h, h]
  · simp [score?_of_not_failed h, h]

/-- What it means for the children that the table bears a selection out. -/
theorem bornOut_iff (hd : (results.map fun r => r.metadata.iteration).Nodup) :
    s.BornOut results ↔
      ((∀ r ∈ results, r.state? ≠ some .error → r.entryNumber? s.output = none) ↔
        ∀ r ∈ results, r.state? ≠ some .error → r.leafNumber? s.output = none) ∧
      ∀ best, s.select results = some best → ∃ n, best.leafNumber? s.output = some n ∧
        ∀ r ∈ results, r.state? ≠ some .error → ∀ m, r.leafNumber? s.output = some m →
          AtLeast s.direction n m := by
  have hnone : (∀ i, (IterationTable.ofRuns results).number? s.output i = none) ↔
      ∀ r ∈ results, r.state? ≠ some .error → r.leafNumber? s.output = none := by
    constructor
    · intro h r hr hf
      refine Option.eq_none_iff_forall_ne_some.2 fun n hn => ?_
      obtain ⟨i, hi⟩ := IterationTable.exists_number?_iff.2 ⟨r, hr, hf, hn⟩
      rw [h i] at hi
      cases hi
    · intro h i
      refine Option.eq_none_iff_forall_ne_some.2 fun n hi => ?_
      obtain ⟨r, hr, hf, hn⟩ := IterationTable.exists_number?_iff.1 ⟨i, hi⟩
      rw [h r hr hf] at hn
      cases hn
  constructor
  · rintro ⟨hnothing, hbest⟩
    refine ⟨by rw [← select_eq_none, hnothing, hnone], fun best hb => ?_⟩
    obtain ⟨i, n, hi, hin, hall⟩ := hbest best hb
    obtain ⟨row, hrow, -, hleaf⟩ := IterationTable.number?_ofRuns.1 hin
    obtain rfl := IterationTable.eq_of_cell?_iter hd (select_eq_some hb).1 hrow hi
    refine ⟨n, hleaf, fun r hr hf m hm => ?_⟩
    obtain ⟨j, hj⟩ := IterationTable.exists_number?_iff.2 ⟨r, hr, hf, hm⟩
    exact hall j m hj
  · rintro ⟨hnothing, hbest⟩
    refine ⟨by rw [select_eq_none, hnothing, hnone], fun best hb => ?_⟩
    obtain ⟨n, hleaf, hall⟩ := hbest best hb
    obtain ⟨hmem, top, hscore, -⟩ := select_eq_some hb
    obtain ⟨i, hi⟩ := List.getElem?_of_mem (IterationTable.mem_byIteration.2 hmem)
    have hiter := IterationTable.cell?_iter_ofRuns results i
    rw [hi] at hiter
    refine ⟨i, n, hiter, ?_, fun j m hj => ?_⟩
    · exact IterationTable.number?_ofRuns.2 ⟨best, hi, (score?_eq_some.1 hscore).1, hleaf⟩
    · obtain ⟨r, hr, hf, hm⟩ := IterationTable.exists_number?_iff.1 ⟨j, hj⟩
      exact hall r hr hf m hm

theorem Faithful.mono {output : String} {part : List Run} (h : Faithful output results)
    (hp : part ⊆ results) : Faithful output part :=
  ⟨fun r hr => h.number r (hp hr), fun r hr q hq => h.order r (hp hr) q (hp hq)⟩

theorem Faithful.bornOut {output : String} (h : Faithful output results)
    (hd : (results.map fun r => r.metadata.iteration).Nodup) (d : Direction) :
    (Selector.mk d output).BornOut results := by
  refine (bornOut_iff hd).2 ⟨forall₂_congr fun r hr => ?_, fun best hb => ?_⟩
  · refine forall_congr' fun hf => ?_
    rw [← Option.not_isSome_iff_eq_none, ← Option.not_isSome_iff_eq_none, h.number r hr hf]
  · obtain ⟨hmem, top, hscore, hyields⟩ := select_eq_some hb
    obtain ⟨hfine, a, ha, rfl⟩ := score?_eq_some.1 hscore
    obtain ⟨x, hx⟩ := Option.isSome_iff_exists.1
      ((h.number best hmem hfine).1 (Option.isSome_iff_exists.2 ⟨a, ha⟩))
    refine ⟨x, hx, fun r hr hf y hy => ?_⟩
    obtain ⟨b, hb⟩ := Option.isSome_iff_exists.1
      ((h.number r hr hf).2 (Option.isSome_iff_exists.2 ⟨y, hy⟩))
    have hworse := (hyields r hr b.rank (score?_eq_some.2 ⟨hf, b, hb, rfl⟩)).1
    have hup := h.order r hr best hmem hf hfine b a y x hb ha hy hx
    have hdown := h.order best hmem r hr hfine hf a b x y ha hb hx hy
    cases d with
    | max =>
        have hle : b.rank ≤ a.rank := Int.not_lt.1 (of_decide_eq_false hworse)
        rcases Int.lt_or_eq_of_le hle with hlt | heq
        · exact hup.1 hlt
        · exact Int.le_of_eq (hup.2 heq)
    | min =>
        have hle : a.rank ≤ b.rank := Int.not_lt.1 (of_decide_eq_false hworse)
        rcases Int.lt_or_eq_of_le hle with hlt | heq
        · exact hdown.1 hlt
        · exact Int.le_of_eq (hdown.2 heq)

theorem BornOut.atLeast {output : String} {d : Direction} {r q : Run} {a b x y : Number}
    (h : (Selector.mk d output).BornOut [r, q]) (hne : r.metadata.iteration ≠ q.metadata.iteration)
    (hr : r.state? ≠ some .error) (hq : q.state? ≠ some .error)
    (ha : r.entryNumber? output = some a) (hb : q.entryNumber? output = some b)
    (hx : r.leafNumber? output = some x) (hy : q.leafNumber? output = some y)
    (hbeats : Direction.better d b.rank a.rank = true ∨
      b.rank = a.rank ∧ q.metadata.iteration < r.metadata.iteration) : AtLeast d y x := by
  have hd : ([r, q].map fun r => r.metadata.iteration).Nodup := by simp [hne]
  obtain ⟨-, hbest⟩ := (bornOut_iff hd).1 h
  have hrscore : (Selector.mk d output).score? r = some a.rank := score?_eq_some.2 ⟨hr, a, ha, rfl⟩
  have hqscore : (Selector.mk d output).score? q = some b.rank := score?_eq_some.2 ⟨hq, b, hb, rfl⟩
  cases hs : (Selector.mk d output).select [r, q] with
  | none =>
      rw [select_eq_none_iff.1 hs r List.mem_cons_self] at hrscore
      cases hrscore
  | some best =>
      obtain ⟨hmem, top, htop, hyields⟩ := select_eq_some hs
      obtain ⟨n, hn, hall⟩ := hbest best hs
      have hcases : best = r ∨ best = q := by simpa using hmem
      rcases hcases with rfl | rfl
      · -- the first child is never selected: the second one takes its place
        rw [hrscore] at htop
        cases htop
        obtain ⟨hworse, hlater⟩ := hyields q (by simp) b.rank hqscore
        rcases hbeats with hbetter | ⟨heq, hlt⟩
        · dsimp only at hworse
          rw [hbetter] at hworse
          cases hworse
        · have := hlater heq
          omega
      · rw [hy] at hn
        cases hn
        exact hall r (by simp) hr x hx

theorem faithful_of_bornOut {output : String}
    (hd : (results.map fun r => r.metadata.iteration).Nodup)
    (h : ∀ part, part ⊆ results → (part.map fun r => r.metadata.iteration).Nodup →
      ∀ d, (Selector.mk d output).BornOut part) : Faithful output results := by
  constructor
  · intro r hr hf
    have hsub : [r] ⊆ results := by simpa using hr
    have halone := ((bornOut_iff (by simp)).1 (h [r] hsub (by simp) .max)).1
    have hnone : r.entryNumber? output = none ↔ r.leafNumber? output = none := by
      simpa [hf] using halone
    rw [← not_iff_not, Option.not_isSome_iff_eq_none, Option.not_isSome_iff_eq_none, hnone]
  · intro r hr q hq hrf hqf a b x y ha hb hx hy
    by_cases hrq : r = q
    · subst hrq
      rw [ha] at hb
      rw [hx] at hy
      cases hb
      cases hy
      exact ⟨fun hlt => by omega, fun _ => rfl⟩
    · have hne : r.metadata.iteration ≠ q.metadata.iteration :=
        fun he => hrq (List.inj_on_of_nodup_map hd hr hq he)
      have hpair : ∀ d, (Selector.mk d output).BornOut [r, q] :=
        h [r, q] (by simp [hr, hq]) (by simp [hne])
      have hswap : ∀ d, (Selector.mk d output).BornOut [q, r] :=
        h [q, r] (by simp [hr, hq]) (by simp [hne.symm])
      constructor
      · intro hlt
        exact (hpair .max).atLeast hne hrf hqf ha hb hx hy
          (.inl (by simpa [Direction.better] using hlt))
      · intro heq
        rcases Nat.lt_or_gt_of_ne hne with hearlier | hlater
        · have hmax := (hswap .max).atLeast hne.symm hqf hrf hb ha hy hx (.inr ⟨heq, hearlier⟩)
          have hmin := (hswap .min).atLeast hne.symm hqf hrf hb ha hy hx (.inr ⟨heq, hearlier⟩)
          exact Int.le_antisymm hmin hmax
        · have hmax := (hpair .max).atLeast hne hrf hqf ha hb hx hy (.inr ⟨heq.symm, hlater⟩)
          have hmin := (hpair .min).atLeast hne hrf hqf ha hb hx hy (.inr ⟨heq.symm, hlater⟩)
          exact Int.le_antisymm hmax hmin

/-- Entries that nothing else is spelled like are shown, and if no two of them are the same double
they are ordered by their doubles. -/
theorem faithful_of_direct {output : String}
    (hdirect : ∀ r ∈ results, r.state? ≠ some .error →
      Json.Direct output r.outputs ∧ (OrderedMap.keys r.outputs).Nodup)
    (happart : ∀ r ∈ results, ∀ q ∈ results, r.state? ≠ some .error → q.state? ≠ some .error →
      ∀ x y, r.leafNumber? output = some x → q.leafNumber? output = some y →
        x.units < y.units → x.rank < y.rank) : Faithful output results := by
  have heq : ∀ r ∈ results, r.state? ≠ some .error →
      r.leafNumber? output = r.entryNumber? output :=
    fun r hr hf => Json.number_lastLeaf? (hdirect r hr hf).1 (hdirect r hr hf).2
  constructor
  · intro r hr hf
    rw [heq r hr hf]
  · intro r hr q hq hrf hqf a b x y ha hb hx hy
    have hax : a = x := by
      rw [heq r hr hrf, ha] at hx
      exact Option.some.inj hx
    have hby : b = y := by
      rw [heq q hq hqf, hb] at hy
      exact Option.some.inj hy
    subst hax hby
    have hup := happart r hr q hq hrf hqf a b hx hy
    have hdown := happart q hq r hr hqf hrf b a hy hx
    omega

/-- The table bears out every selection among some children exactly where the entries of the output
stand for what it shows. They do so if nothing else is spelled like the output in the children that
did not fail, and no two numbers that are shown of these have one double. -/
theorem bornOut_exactly (output : String) (results : List Run)
    (hd : (results.map fun r => r.metadata.iteration).Nodup) :
    ((∀ part, part ⊆ results → (part.map fun r => r.metadata.iteration).Nodup →
        ∀ d, (Selector.mk d output).BornOut part) ↔ Faithful output results) ∧
      ((∀ r ∈ results, r.state? ≠ some .error →
          Json.Direct output r.outputs ∧ (OrderedMap.keys r.outputs).Nodup) →
        (∀ r ∈ results, ∀ q ∈ results, r.state? ≠ some .error → q.state? ≠ some .error →
          ∀ x y, r.leafNumber? output = some x → q.leafNumber? output = some y →
            x.units < y.units → x.rank < y.rank) →
        ∀ d, (Selector.mk d output).BornOut results) :=
  ⟨⟨faithful_of_bornOut hd, fun h _ hp hpart => (h.mono hp).bornOut hpart⟩,
    fun hdirect happart => (faithful_of_direct hdirect happart).bornOut hd⟩

def childWith (iteration : Nat) (state : RunState) (outputs : OrderedMap Json) : Run :=
  { metadata := { iteration }, status := some { state := some state, outputs } }

/-- Other spellings do not matter in a child that failed, nor under other names. -/
theorem bornOut_exactly_losses :
    let results := [childWith 2 .completed [("loss", .number (.float 0x3FD0000000000000))],
      childWith 1 .completed [("eval", .object [("loss", .null)]),
        ("loss", .number (.float 0x3FE0000000000000))],
      childWith 3 .error [("loss", .object [])]]
    (Selector.mk .max "loss").BornOut results ∧ (Selector.mk .min "loss").BornOut results := by
  intro results
  have hfloat : ∀ r ∈ results, ∀ x, r.leafNumber? "loss" = some x → ∃ bits, x = .float bits := by
    intro r hr x hx
    simp only [results, List.mem_cons, List.not_mem_nil, or_false] at hr
    rcases hr with rfl | rfl | rfl
    · exact ⟨_, (Option.some.inj hx).symm⟩
    · exact ⟨_, (Option.some.inj hx).symm⟩
    · cases hx
  have hboth : ∀ d, (Selector.mk d "loss").BornOut results := by
    refine (bornOut_exactly "loss" results (by decide)).2 (by decide +kernel) ?_
    intro r hr q hq _ _ x y hx hy hlt
    obtain ⟨a, rfl⟩ := hfloat r hr x hx
    obtain ⟨b, rfl⟩ := hfloat q hq y hy
    exact (Number.units_lt_iff a b).1 hlt
  exact ⟨hboth .max, hboth .min⟩

/-- The table shows the loss of this child as the criterion spells it, but it is not selected. -/
theorem select_misses_nested :
    parse "min.eval.loss" = .ok ⟨.min, "eval.loss"⟩ ∧
    (Selector.mk .min "eval.loss").select [childWith 1 .completed
      [("eval", .object [("loss", .number (.float 0x3FE0000000000000))])]] = none ∧
    (IterationTable.ofRuns [childWith 1 .completed
      [("eval", .object [("loss", .number (.float 0x3FE0000000000000))])]]).number?
        "eval.loss" 0 = some (.float 0x3FE0000000000000) ∧
    ¬ (Selector.mk .min "eval.loss").BornOut [childWith 1 .completed
      [("eval", .object [("loss", .number (.float 0x3FE0000000000000))])]] := by
  have hnone : (Selector.mk .min "eval.loss").select [childWith 1 .completed
      [("eval", .object [("loss", .number (.float 0x3FE0000000000000))])]] = none := by decide
  have hshown : (IterationTable.ofRuns [childWith 1 .completed
      [("eval", .object [("loss", .number (.float 0x3FE0000000000000))])]]).number?
        "eval.loss" 0 = some (.float 0x3FE0000000000000) := by decide +kernel
  refine ⟨by decide, hnone, hshown, fun h => ?_⟩
  rw [h.nothing.1 hnone 0] at hshown
  cases hshown

end Selector

end Experiment
