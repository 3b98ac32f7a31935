import Experiment.Proofs.Selection

/-!
# What is selected does not depend on the order of the children

Children are compared by the doubles of their entries. The selected one has the best double of all
that did not fail and have a number, and the lowest iteration of those with this double. If no two
children have one iteration, there is only one such child, in whatever order the results come.
-/

namespace Experiment

namespace Selector
variable {s : Selector} {value : Number → Number} {results other : List Run} {best run : Run}
  {n m : Number}

/-- A child that did not fail and whose output is this number. -/
def Eligible (s : Selector) (run : Run) (n : Number) : Prop :=
  run.state? ≠ some .error ∧ run.entryNumber? s.output = some n

/-- An eligible child, by its number, that is best by a value of the numbers: no eligible child has
a better value, and none with the same value is of a lower iteration. -/
structure Best (s : Selector) (value : Number → Number) (results : List Run) (best : Run)
    (n : Number) : Prop where
  mem : best ∈ results
  eligible : s.Eligible best n
  optimal : ∀ r ∈ results, ∀ m, s.Eligible r m → AtLeast s.direction (value n) (value m)
  earliest : ∀ r ∈ results, ∀ m, s.Eligible r m → (value m).units = (value n).units →
    best.metadata.iteration ≤ r.metadata.iteration

theorem Eligible.unique (hn : s.Eligible run n) (hm : s.Eligible run m) : n = m :=
  Option.some.inj (hn.2.symm.trans hm.2)

theorem Eligible.score? (h : s.Eligible run n) : s.score? run = some n.rank :=
  score?_eq_some.2 ⟨h.1, n, h.2, rfl⟩

theorem atLeast_refl (d : Direction) (n : Number) : AtLeast d n n := by
  cases d <;> exact Int.le_refl _

theorem atLeast_total (d : Direction) (n m : Number) : AtLeast d n m ∨ AtLeast d m n := by
  cases d <;> simp only [AtLeast] <;> omega

theorem AtLeast.trans {d : Direction} {k : Number} (h : AtLeast d n m) (hm : AtLeast d m k) :
    AtLeast d n k := by
  cases d with
  | max => exact Int.le_trans hm h
  | min => exact Int.le_trans h hm

theorem AtLeast.antisymm {d : Direction} (h : AtLeast d n m) (hback : AtLeast d m n) :
    n.units = m.units := by
  cases d with
  | max => exact Int.le_antisymm hback h
  | min => exact Int.le_antisymm h hback

theorem atLeast_double_of_not_better {d : Direction}
    (h : Direction.better d m.rank n.rank = false) : AtLeast d n.double m.double := by
  cases d with
  | max => exact (Number.units_double_le_iff m n).2 (Int.not_lt.1 (of_decide_eq_false h))
  | min => exact (Number.units_double_le_iff n m).2 (Int.not_lt.1 (of_decide_eq_false h))

theorem Best.congr {other : Number → Number} (h : s.Best value results best n)
    (heq : ∀ r ∈ results, ∀ m, s.Eligible r m → (value m).units = (other m).units) :
    s.Best other results best n := by
  have hbest := heq best h.mem n h.eligible
  refine ⟨h.mem, h.eligible, fun r hr m hm => ?_, fun r hr m hm hsame => ?_⟩
  · have hatLeast := h.optimal r hr m hm
    have hm' := heq r hr m hm
    cases hd : s.direction <;> rw [hd] at hatLeast <;> simp only [AtLeast] at hatLeast ⊢ <;> omega
  · exact h.earliest r hr m hm (by rw [heq r hr m hm, hsame, hbest])

theorem Best.perm (h : s.Best value results best n) (hp : other.Perm results) :
    s.Best value other best n where
  mem := hp.mem_iff.2 h.mem
  eligible := h.eligible
  optimal := fun r hr => h.optimal r (hp.mem_iff.1 hr)
  earliest := fun r hr => h.earliest r (hp.mem_iff.1 hr)

/-- Two children that are best have one value, and so each is of the lowest iteration with it. -/
theorem Best.iteration_eq (h : s.Best value results best n) (hrun : s.Best value results run m) :
    best.metadata.iteration = run.metadata.iteration := by
  have heq : (value n).units = (value m).units :=
    (h.optimal run hrun.mem m hrun.eligible).antisymm (hrun.optimal best h.mem n h.eligible)
  exact Nat.le_antisymm (h.earliest run hrun.mem m hrun.eligible heq.symm)
    (hrun.earliest best h.mem n h.eligible heq)

theorem Best.unique (hd : (results.map fun r => r.metadata.iteration).Nodup)
    (h : s.Best value results best n) (hrun : s.Best value results run m) : best = run :=
  List.inj_on_of_nodup_map hd h.mem hrun.mem (h.iteration_eq hrun)

theorem best_of_select (h : s.select results = some best) :
    ∃ n, s.Best Number.double results best n := by
  obtain ⟨hmem, top, hscore, hyields⟩ := select_eq_some h
  obtain ⟨hfine, n, hn, rfl⟩ := score?_eq_some.1 hscore
  refine ⟨n, hmem, ⟨hfine, hn⟩, fun r hr m hm => ?_, fun r hr m hm heq => ?_⟩
  · exact atLeast_double_of_not_better (hyields r hr m.rank hm.score?).1
  · exact (hyields r hr m.rank hm.score?).2 ((Number.units_double_eq_iff m n).1 heq)

theorem select_eq_none_iff_eligible :
    s.select results = none ↔ ∀ r ∈ results, ∀ n, ¬ s.Eligible r n := by
  rw [select_eq_none]
  refine forall₂_congr fun r _ => ⟨fun h n ⟨hfine, hn⟩ => ?_, fun h hfine => ?_⟩
  · rw [h hfine] at hn
    cases hn
  · exact Option.eq_none_iff_forall_ne_some.2 fun n hn => h n ⟨hfine, hn⟩

theorem select_eq_some_iff (hd : (results.map fun r => r.metadata.iteration).Nodup) :
    s.select results = some best ↔ ∃ n, s.Best Number.double results best n := by
  refine ⟨best_of_select, fun ⟨n, h⟩ => ?_⟩
  cases hs : s.select results with
  | none => exact absurd h.eligible (select_eq_none_iff_eligible.1 hs best h.mem n)
  | some run =>
      obtain ⟨m, hrun⟩ := best_of_select hs
      rw [h.unique hd hrun]

/-- Nothing is selected only where no child is eligible, and else a child that is best by its
double. If no two children have one iteration, the same one is selected in every order. -/
theorem select_optimum (s : Selector) (results : List Run) :
    (s.select results = none ↔ ∀ r ∈ results, ∀ n, ¬ s.Eligible r n) ∧
    (∀ best, s.select results = some best → ∃ n, s.Best Number.double results best n) ∧
    ((results.map fun r => r.metadata.iteration).Nodup →
      ∀ other, other.Perm results → s.select other = s.select results) := by
  refine ⟨select_eq_none_iff_eligible, fun best => best_of_select, fun hd other hp => ?_⟩
  have hd' : (other.map fun r => r.metadata.iteration).Nodup := (hp.map _).nodup_iff.2 hd
  refine Option.ext fun best => ?_
  rw [select_eq_some_iff hd', select_eq_some_iff hd]
  exact exists_congr fun n => ⟨fun h => h.perm hp.symm, fun h => h.perm hp⟩

/-- A better child that failed and one whose output is a text are passed over, and the other two
have one double: whichever comes first, it is the one of the lower iteration. -/
theorem select_optimum_tie :
    let early := childWith 2 .completed [("loss", .number (.int 1))]
    let late := childWith 7 .completed [("loss", .number (.float 0x3FF0000000000000))]
    let failed := childWith 1 .error [("loss", .number (.int 0))]
    let text := childWith 3 .completed [("loss", .string "0")]
    (Selector.mk .min "loss").select [late, failed, text, early] = some early ∧
    (∃ n, (Selector.mk .min "loss").Best Number.double [late, failed, text, early] early n) ∧
    (Selector.mk .min "loss").select [early, failed, text, late] = some early ∧
    (Selector.mk .min "loss").select [failed, text] = none := by
  intro early late failed text
  have hselect : (Selector.mk .min "loss").select [late, failed, text, early] = some early := by
    decide +kernel
  obtain ⟨-, hbest, hperm⟩ := select_optimum ⟨.min, "loss"⟩ [late, failed, text, early]
  have hother := hperm (by decide) [early, failed, text, late] (by decide +kernel)
  exact ⟨hselect, hbest early hselect, hother.trans hselect, by decide⟩

end Selector

end Experiment
