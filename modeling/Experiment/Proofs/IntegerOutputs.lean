import Experiment.Proofs.Json.Rounding
import Experiment.Proofs.Optimum

/-!
# Integers are ranked by their doubles

Integers of 64 bits are compared after they were rounded to doubles. Of those that are rounded to
the best double, whatever they are themselves, the child of the lowest iteration is selected, and
the first one of this iteration. So it has the best integer exactly where one that has it comes
before all that only share its double. That is so where no integer is beyond `2 ^ 53`.
-/

namespace Experiment

namespace Number
variable {n : Number}

/-- A number as it is compared: an integer is rounded. -/
def rounded : Number → Number
  | .int i => .int (round i)
  | .float bits => .float bits

theorem units_double (h : ∀ i, n = .int i → fits i = true) : n.double.units = n.rounded.units := by
  cases n with
  | int i => exact units_double_int (h i rfl)
  | float bits => rfl

end Number

namespace Selector
variable {s : Selector} {value : Number → Number} {results seen : List Run} {best run q r : Run}
  {acc : Option (Run × Int)} {n m : Number} {i j : Int}

/-- One child is looked at before another one if both are as good: it is of a lower iteration, or of
the same one and comes first. -/
def Precedes (results : List Run) (q r : Run) : Prop :=
  q.metadata.iteration < r.metadata.iteration ∨
    q.metadata.iteration = r.metadata.iteration ∧ results.idxOf q < results.idxOf r

theorem Precedes.asymm (h : Precedes results q r) : ¬ Precedes results r q := by
  unfold Precedes at *
  omega

theorem precedes_append_iff (hq : q ∈ seen) (hr : r ∈ seen) (rest : List Run) :
    Precedes (seen ++ rest) q r ↔ Precedes seen q r := by
  rw [Precedes, Precedes, List.idxOf_append_of_mem hq, List.idxOf_append_of_mem hr]

theorem precedes_concat (hq : q ∈ seen) (hr : r ∉ seen)
    (hle : q.metadata.iteration ≤ r.metadata.iteration) : Precedes (seen ++ [r]) q r := by
  rcases Nat.lt_or_eq_of_le hle with hlt | heq
  · exact .inl hlt
  · refine .inr ⟨heq, ?_⟩
    rw [List.idxOf_append_of_mem hq, List.idxOf_append_of_notMem hr]
    exact Nat.lt_add_right _ (List.idxOf_lt_length_iff.2 hq)

/-- The child that is best so far precedes the others of its value. -/
def First (s : Selector) (seen : List Run) (acc : Option (Run × Int)) : Prop :=
  ∀ best top, acc = some (best, top) →
    ∀ r ∈ seen, s.score? r = some top → r ≠ best → Precedes seen best r

theorem first_pick (ho : s.Optimal seen acc) (h : s.First seen acc) (run : Run) :
    s.First (seen ++ [run]) (s.pick acc run) := by
  intro best top hacc r hr hscore hne
  have hcases : r ∈ seen ∨ r ∉ seen ∧ r = run := by
    by_cases hseen : r ∈ seen
    · exact .inl hseen
    · exact .inr ⟨hseen, by simpa [hseen] using hr⟩
  cases hv : s.score? run with
  | none =>
      rw [pick_of_none hv] at hacc
      subst hacc
      rcases hcases with hseen | ⟨-, rfl⟩
      · exact (precedes_append_iff ho.1 hseen _).2 (h best top rfl r hseen hscore hne)
      · rw [hv] at hscore
        cases hscore
  | some value =>
      cases acc with
      | none =>
          rw [pick_none hv] at hacc
          cases hacc
          rcases hcases with hseen | ⟨-, rfl⟩
          · rw [ho r hseen] at hscore
            cases hscore
          · exact absurd rfl hne
      | some p =>
          obtain ⟨current, kept⟩ := p
          obtain ⟨hmem, -, hyields⟩ := ho
          by_cases hbetter : Direction.better s.direction value kept = true ∨
              value = kept ∧ run.metadata.iteration < current.metadata.iteration
          · rw [pick_of_better hv hbetter] at hacc
            cases hacc
            rcases hcases with hseen | ⟨-, rfl⟩
            · -- a child of this value was seen before, so it is the iteration that decided
              obtain ⟨hworse, hlater⟩ := hyields r hseen top hscore
              rcases hbetter with hb | ⟨heq, hlt⟩
              · rw [hworse] at hb
                cases hb
              · exact .inl (hlt.trans_le (hlater heq))
            · exact absurd rfl hne
          · rw [pick_of_not_better hv hbetter] at hacc
            cases hacc
            rcases hcases with hseen | ⟨hnew, rfl⟩
            · exact (precedes_append_iff hmem hseen _).2 (h best top rfl r hseen hscore hne)
            · rw [hv] at hscore
              cases hscore
              exact precedes_concat hmem hnew
                (Nat.le_of_not_lt fun hlt => hbetter (.inr ⟨rfl, hlt⟩))

theorem first_foldl (ho : s.Optimal seen acc) (h : s.First seen acc) (results : List Run) :
    s.First (seen ++ results) (results.foldl s.pick acc) := by
  induction results generalizing seen acc with
  | nil =>
      rw [List.append_nil]
      exact h
  | cons run rest ih =>
      rw [List.foldl_cons, List.append_cons]
      exact ih (optimal_pick ho run) (first_pick ho h run)

theorem select_precedes (h : s.select results = some best) (hr : r ∈ results)
    (hscore : s.score? r = s.score? best) (hne : r ≠ best) : Precedes results best r := by
  have ho := optimal_select s results
  have hnothing : s.Optimal [] none := fun _ hr => absurd hr List.not_mem_nil
  have hfirst := first_foldl hnothing (fun _ _ hacc => by cases hacc) results
  rw [List.nil_append] at hfirst
  unfold select at h
  cases hp : results.foldl s.pick none with
  | none =>
      rw [hp] at h
      cases h
  | some p =>
      rw [hp] at h ho hfirst
      obtain ⟨c, top⟩ := p
      cases h
      exact hfirst c top rfl r hr (hscore.trans ho.2.1) hne

/-- Among eligible children there is one with the best number. -/
theorem exists_atLeast (hr : r ∈ results) (h : s.Eligible r n) : ∃ q ∈ results, ∃ m,
    s.Eligible q m ∧ ∀ p ∈ results, ∀ k, s.Eligible p k → AtLeast s.direction m k := by
  induction results generalizing r n with
  | nil => cases hr
  | cons run rest ih =>
      by_cases hrest : ∃ p ∈ rest, ∃ k, s.Eligible p k
      · obtain ⟨p, hp, k, hk⟩ := hrest
        obtain ⟨q, hq, m, hm, hall⟩ := ih hp hk
        by_cases hrun : ∃ k, s.Eligible run k ∧ AtLeast s.direction k m
        · obtain ⟨k, hk, hkm⟩ := hrun
          refine ⟨run, List.mem_cons_self, k, hk, fun p hp j hj => ?_⟩
          rcases List.mem_cons.1 hp with rfl | hp
          · rw [hk.unique hj]
            exact atLeast_refl _ _
          · exact hkm.trans (hall p hp j hj)
        · refine ⟨q, List.mem_cons_of_mem _ hq, m, hm, fun p hp j hj => ?_⟩
          rcases List.mem_cons.1 hp with rfl | hp
          · exact (atLeast_total _ _ _).resolve_right fun h => hrun ⟨j, hj, h⟩
          · exact hall p hp j hj
      · have honly : ∀ p ∈ run :: rest, ∀ k, s.Eligible p k → p = run := by
          intro p hp k hk
          rcases List.mem_cons.1 hp with heq | hp
          · exact heq
          · exact absurd ⟨p, hp, k, hk⟩ hrest
        obtain rfl := honly r hr n h
        refine ⟨r, hr, n, h, fun p hp k hk => ?_⟩
        obtain rfl := honly p hp k hk
        rw [h.unique hk]
        exact atLeast_refl _ _

/-- The output of every eligible child is an integer of 64 bits. -/
def Integers (s : Selector) (results : List Run) : Prop :=
  ∀ r ∈ results, ∀ n, s.Eligible r n → ∃ i, n = .int i ∧ Number.fits i = true

/-- What is selected is best by the numbers themselves. -/
def RanksExactly (s : Selector) (results : List Run) : Prop :=
  ∀ best, s.select results = some best → ∃ n, s.Best id results best n

theorem atLeast_round {d : Direction} (h : AtLeast d (.int i) (.int j)) :
    AtLeast d (.int (Number.round i)) (.int (Number.round j)) := by
  cases d <;> simp only [AtLeast, Number.units_int_le_iff] at h ⊢ <;> exact Number.round_mono h

theorem Integers.best_rounded (hint : s.Integers results) (h : s.select results = some best) :
    ∃ n, s.Best Number.rounded results best n := by
  obtain ⟨n, hn⟩ := best_of_select h
  refine ⟨n, hn.congr fun r hr m hm => ?_⟩
  obtain ⟨i, rfl, hfits⟩ := hint r hr m hm
  exact Number.units_double fun _ h => by cases h; exact hfits

/-- A child that has only the double of the best integer, which another child has, comes after one
that has it as well. -/
def Guarded (s : Selector) (results : List Run) : Prop :=
  ∀ r ∈ results, ∀ q ∈ results, ∀ i j, s.Eligible r (.int i) → s.Eligible q (.int j) →
    (∀ p ∈ results, ∀ k, s.Eligible p k → AtLeast s.direction (.int j) k) →
    i ≠ j → Number.round i = Number.round j →
    ∃ p ∈ results, s.Eligible p (.int j) ∧ Precedes results p r

theorem score?_eq_of_round_eq (hi : Number.fits i = true) (hj : Number.fits j = true)
    (hr : s.Eligible r (.int i)) (hq : s.Eligible q (.int j))
    (h : Number.round i = Number.round j) : s.score? r = s.score? q := by
  rw [hr.score?, hq.score?, (Number.units_double_eq_iff (.int i) (.int j)).1]
  rw [Number.units_double_int hi, Number.units_double_int hj, h]

theorem guarded_of_ranksExactly (hint : s.Integers results) (h : s.RanksExactly results) :
    s.Guarded results := by
  intro r hr q hq i j hi hj hall hne hround
  cases hs : s.select results with
  | none => exact absurd hi (select_eq_none_iff_eligible.1 hs r hr _)
  | some best =>
      obtain ⟨n, hbest⟩ := h best hs
      obtain ⟨k, rfl, hk⟩ := hint best hbest.mem n hbest.eligible
      have heq : k = j := by
        have hunits := (hbest.optimal q hq _ hj).antisymm (hall best hbest.mem _ hbest.eligible)
        exact Number.units_int_eq_iff.1 hunits
      subst heq
      have hother : r ≠ best := by
        rintro rfl
        exact hne (Number.int.inj (hi.unique hbest.eligible))
      obtain ⟨_, hsame, hfits⟩ := hint r hr _ hi
      cases hsame
      exact ⟨best, hbest.mem, hbest.eligible, select_precedes hs hr
        (score?_eq_of_round_eq hfits hk hi hbest.eligible hround) hother⟩

theorem ranksExactly_of_guarded (hint : s.Integers results) (h : s.Guarded results) :
    s.RanksExactly results := by
  intro best hs
  obtain ⟨n, hbest⟩ := hint.best_rounded hs
  obtain ⟨k, rfl, hk⟩ := hint best hbest.mem n hbest.eligible
  obtain ⟨q, hq, m, hm, hall⟩ := exists_atLeast hbest.mem hbest.eligible
  obtain ⟨j, rfl, hj⟩ := hint q hq m hm
  have hround : Number.round k = Number.round j := by
    have hup := hbest.optimal q hq _ hm
    have hdown := atLeast_round (hall best hbest.mem _ hbest.eligible)
    exact Number.units_int_eq_iff.1 (hup.antisymm hdown)
  have heq : k = j := by
    by_contra hne
    obtain ⟨p, hp, hpj, hprecedes⟩ := h best hbest.mem q hq k j hbest.eligible hm hall hne hround
    have hother : p ≠ best := by
      rintro rfl
      exact hne (Number.int.inj (hbest.eligible.unique hpj))
    have hscore := score?_eq_of_round_eq hj hk hpj hbest.eligible hround.symm
    exact hprecedes.asymm (select_precedes hs hp hscore hother)
  subst heq
  refine ⟨.int k, hbest.mem, hbest.eligible, hall, fun r hr m hmr hunits => ?_⟩
  obtain ⟨i, rfl, -⟩ := hint r hr m hmr
  obtain rfl : i = k := Number.units_int_eq_iff.1 hunits
  exact hbest.earliest r hr _ hmr rfl

/-- Rounding hides at most the 11 bits by which an integer of 64 bits is longer than a double. -/
theorem Integers.close (hint : s.Integers results) (h : s.select results = some best)
    (hi : s.Eligible best (.int i)) (hr : r ∈ results) (hj : s.Eligible r (.int j)) :
    AtLeast s.direction (.int i) (.int j) ∨ (i - j).natAbs ≤ 2 ^ 11 := by
  obtain ⟨n, hbest⟩ := hint.best_rounded h
  obtain rfl := hi.unique hbest.eligible
  obtain ⟨_, hi', hfits⟩ := hint best hbest.mem _ hi
  obtain ⟨_, hj', hfits'⟩ := hint r hr _ hj
  cases hi'
  cases hj'
  have hclose := Number.round_close hfits
  have hclose' := Number.round_close hfits'
  have hrounded := hbest.optimal r hr _ hj
  cases hd : s.direction <;> rw [hd] at hrounded <;>
    simp only [Number.rounded, AtLeast, Number.units_int_le_iff] at hrounded ⊢ <;> omega

/-- Nothing is selected only where no child is eligible, and else a child whose integer is best
after rounding, so that no other one is better by more than `2 ^ 11`. It is the best integer itself
exactly where it is guarded against those of its double, and so where none is beyond `2 ^ 53`. -/
theorem select_integers (s : Selector) (results : List Run) (hint : s.Integers results) :
    (s.select results = none ↔ ∀ r ∈ results, ∀ n, ¬ s.Eligible r n) ∧
    (∀ best, s.select results = some best → ∃ n, s.Best Number.rounded results best n) ∧
    (∀ best i, s.select results = some best → s.Eligible best (.int i) →
      ∀ r ∈ results, ∀ j, s.Eligible r (.int j) →
        AtLeast s.direction (.int i) (.int j) ∨ (i - j).natAbs ≤ 2 ^ 11) ∧
    (s.RanksExactly results ↔ s.Guarded results) ∧
    ((∀ r ∈ results, ∀ i, s.Eligible r (.int i) → i.natAbs ≤ 2 ^ 53) → s.RanksExactly results) := by
  refine ⟨select_eq_none_iff_eligible, fun best => hint.best_rounded,
    fun best i hs hi r hr j => hint.close hs hi hr,
    ⟨guarded_of_ranksExactly hint, ranksExactly_of_guarded hint⟩, fun hsmall => ?_⟩
  refine ranksExactly_of_guarded hint fun r hr q hq i j hi hj _ hne hround => ?_
  rw [Number.round_of_natAbs_le (hsmall r hr i hi), Number.round_of_natAbs_le (hsmall q hq j hj)]
    at hround
  exact absurd hround hne

/-- Both integers have one double, but the better one is of the lower iteration. -/
theorem select_integers_shielded :
    let results := [childWith 2 .completed [("o", .number (.int 9007199254740992))],
      childWith 1 .completed [("o", .number (.int 9007199254740993))],
      childWith 3 .error [("o", .number (.int 9007199254740994))]]
    (Selector.mk .max "o").Integers results ∧ (Selector.mk .max "o").RanksExactly results := by
  intro results
  have heligible : ∀ r ∈ results, ∀ n, (Selector.mk .max "o").Eligible r n →
      r.metadata.iteration = 2 ∧ n = .int 9007199254740992 ∨
        r.metadata.iteration = 1 ∧ n = .int 9007199254740993 := by
    rintro r hr n ⟨hfine, hn⟩
    simp only [results, List.mem_cons, List.not_mem_nil, or_false] at hr
    rcases hr with rfl | rfl | rfl
    · exact .inl ⟨rfl, (Option.some.inj hn).symm⟩
    · exact .inr ⟨rfl, (Option.some.inj hn).symm⟩
    · exact absurd rfl hfine
  have hint : (Selector.mk .max "o").Integers results := by
    intro r hr n hn
    rcases heligible r hr n hn with ⟨-, rfl⟩ | ⟨-, rfl⟩
    · exact ⟨_, rfl, by decide⟩
    · exact ⟨_, rfl, by decide⟩
  refine ⟨hint, (select_integers ⟨.max, "o"⟩ results hint).2.2.2.1.2 ?_⟩
  intro r hr q hq i j hi hj hall hne _
  rcases heligible r hr _ hi with ⟨hlate, hir⟩ | ⟨-, hir⟩ <;>
    rcases heligible q hq _ hj with ⟨-, hjq⟩ | ⟨hearly, hjq⟩ <;> cases hir <;> cases hjq
  · exact absurd rfl hne
  · exact ⟨q, hq, hj, .inl (by omega)⟩
  · exact absurd (Number.units_int_le_iff.1 (hall r hr _ hi)) (by decide)
  · exact absurd rfl hne

/-- The child with the best integer is not the one that is selected. -/
theorem select_misses_exact :
    let results := [childWith 1 .completed [("o", .number (.int 9007199254740992))],
      childWith 2 .completed [("o", .number (.int 9007199254740993))]]
    (Selector.mk .max "o").select results = results[0]? ∧
    ¬ (Selector.mk .max "o").RanksExactly results := by
  intro results
  have hselect : (Selector.mk .max "o").select results = results[0]? := by decide +kernel
  refine ⟨hselect, fun h => ?_⟩
  obtain ⟨n, hbest⟩ := h _ hselect
  obtain rfl : Number.int 9007199254740992 = n := Option.some.inj hbest.eligible.2
  have hbetter := hbest.optimal results[1] (List.getElem_mem _) (.int 9007199254740993)
    ⟨by decide, rfl⟩
  exact absurd (Number.units_int_le_iff.1 hbetter) (by decide)

end Selector

end Experiment
