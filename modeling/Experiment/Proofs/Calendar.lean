import Experiment.Timestamp

/-!
# The calendar

The date of a day is found from the day's place in its era of 400 years, in its century, in its group
of four years and in its year, which is counted from March, so that a leap day comes last. Counting
the days of that date gives the day again.
-/

namespace Experiment.Timestamp

/-- Centuries, groups of four years, years and days of a day of an era of 400 years. -/
theorem split_era {doe yoe : Int} (h0 : 0 ≤ doe) (h1 : doe < 146097)
    (hy : yoe = (doe - doe / 1460 + doe / 36524 - doe / 146096) / 365) :
    ∃ c q k d : Int, (0 ≤ c ∧ c ≤ 3) ∧ (0 ≤ q ∧ q ≤ 24) ∧ (0 ≤ k ∧ k ≤ 3) ∧ (0 ≤ d ∧ d ≤ 365) ∧
      (d = 365 → k = 3 ∧ (q ≤ 23 ∨ c = 3)) ∧
      doe = 36524 * c + 1461 * q + 365 * k + d ∧ yoe = 100 * c + 4 * q + k := by
  by_cases hlast : doe = 146096
  · subst hlast
    exact ⟨3, 24, 3, 365, by omega, by omega, by omega, by omega, by omega, by omega, by omega⟩
  · obtain ⟨c, hc⟩ : ∃ c, c = doe / 36524 := ⟨_, rfl⟩
    obtain ⟨q, hq⟩ : ∃ q, q = (doe - 36524 * c) / 1461 := ⟨_, rfl⟩
    obtain ⟨s, hs⟩ : ∃ s, s = doe - 36524 * c - 1461 * q := ⟨_, rfl⟩
    obtain ⟨e, he⟩ : ∃ e, e = (24 * c + q + s) / 1460 := ⟨_, rfl⟩
    have hcr : 0 ≤ c ∧ c ≤ 3 := by omega
    have hqr : 0 ≤ q ∧ q ≤ 24 := by omega
    have hsr : 0 ≤ s ∧ s ≤ 1460 ∧ (s = 1460 → q ≤ 23) := by omega
    have her : (0 ≤ e ∧ e ≤ 1) ∧ (s < 1364 → e = 0) ∧ (s = 1460 → e = 1) := by omega
    have hleap : doe / 1460 = 25 * c + q + e := by omega
    have hera : doe / 146096 = 0 := by omega
    have hyear : yoe = 100 * c + 4 * q + (s - e) / 365 := by
      rw [hy, hleap, ← hc, hera]
      omega
    exact ⟨c, q, (s - e) / 365, s - 365 * ((s - e) / 365), hcr, hqr, by omega, by omega, by omega,
      by omega, hyear⟩

theorem day_of_split {doe yoe c q k d : Int} (hq : 0 ≤ q ∧ q ≤ 24)
    (hk : 0 ≤ k ∧ k ≤ 3) (hdoe : doe = 36524 * c + 1461 * q + 365 * k + d)
    (hyoe : yoe = 100 * c + 4 * q + k) : doe - (365 * yoe + yoe / 4 - yoe / 100) = d := by
  have hfour : yoe / 4 = 25 * c + q := by omega
  have hcentury : yoe / 100 = c := by omega
  rw [hfour, hcentury]
  omega

/-- Year, month and day of the `d`-th day, counted from March, of year `y`. -/
def marchDate (y d : Int) : Int × Nat × Nat :=
  let mp := (5 * d + 2) / 153
  let month := if mp < 10 then mp + 3 else mp - 9
  (y + (if month ≤ 2 then 1 else 0), month.toNat, (d - (153 * mp + 2) / 5 + 1).toNat)

theorem dateOf_eq_marchDate (days : Int) : ∃ era c q k d : Int, (0 ≤ c ∧ c ≤ 3) ∧
    (0 ≤ q ∧ q ≤ 24) ∧ (0 ≤ k ∧ k ≤ 3) ∧ (0 ≤ d ∧ d ≤ 365) ∧
    (d = 365 → k = 3 ∧ (q ≤ 23 ∨ c = 3)) ∧
    days = era * 146097 + 36524 * c + 1461 * q + 365 * k + d - 719468 ∧
    dateOf days = marchDate (era * 400 + 100 * c + 4 * q + k) d := by
  obtain ⟨era, hera⟩ : ∃ era, era = (days + 719468) / 146097 := ⟨_, rfl⟩
  obtain ⟨doe, hdoe⟩ : ∃ doe, doe = days + 719468 - era * 146097 := ⟨_, rfl⟩
  have hrange : 0 ≤ doe ∧ doe < 146097 := by omega
  obtain ⟨c, q, k, d, hc, hq, hk, hd, hleap, hsplit, hyear⟩ := split_era hrange.1 hrange.2 rfl
  have hdays : days = era * 146097 + 36524 * c + 1461 * q + 365 * k + d - 719468 := by
    clear hera hyear
    omega
  have hdoy := day_of_split hq hk hsplit hyear
  refine ⟨era, c, q, k, d, hc, hq, hk, hd, hleap, hdays, ?_⟩
  rw [hyear] at hdoy
  have hy : 100 * c + 4 * q + k + era * 400 = era * 400 + 100 * c + 4 * q + k := by
    rw [Int.add_comm, ← Int.add_assoc, ← Int.add_assoc]
  simp only [dateOf, marchDate, ← hera, ← hdoe, hyear, hdoy, hy]

theorem daysOf_marchDate (y : Int) {d : Int} (hd : 0 ≤ d ∧ d ≤ 365) :
    daysOf (marchDate y d).1 (marchDate y d).2.1 (marchDate y d).2.2 =
      y / 400 * 146097 + ((y - y / 400 * 400) * 365 + (y - y / 400 * 400) / 4
        - (y - y / 400 * 400) / 100 + d) - 719468 := by
  obtain ⟨mp, hmp⟩ : ∃ mp, mp = (5 * d + 2) / 153 := ⟨_, rfl⟩
  have hday : ((d - (153 * mp + 2) / 5 + 1).toNat : Int) = d - (153 * mp + 2) / 5 + 1 := by omega
  have hdoy : (153 * mp + 2) / 5 + (d - (153 * mp + 2) / 5 + 1) - 1 = d := by omega
  by_cases hspring : mp < 10
  · have hmonth : ((mp + 3).toNat : Int) = mp + 3 := by omega
    have hlate : ¬ (mp + 3).toNat ≤ 2 ∧ 2 < (mp + 3).toNat ∧ ¬ mp + 3 ≤ 2 := by omega
    simp only [marchDate, ← hmp, if_pos hspring, daysOf, hlate, if_false, if_true, hmonth, hday,
      Int.add_sub_cancel, hdoy, Int.add_zero]
  · have hmonth : ((mp - 9).toNat : Int) + 9 = mp := by omega
    have hearly : (mp - 9).toNat ≤ 2 ∧ ¬ 2 < (mp - 9).toNat ∧ mp - 9 ≤ 2 := by omega
    simp only [marchDate, ← hmp, if_neg hspring, daysOf, hearly, if_false, if_true, hmonth, hday,
      Int.add_sub_cancel, hdoy]

theorem day_marchDate {y d : Int} (hd : 0 ≤ d ∧ d ≤ 365) (hleap : d = 365 → isLeap (y + 1)) :
    1 ≤ (marchDate y d).2.2 ∧
      (marchDate y d).2.2 ≤ daysIn (marchDate y d).1 (marchDate y d).2.1 := by
  obtain ⟨mp, hmp⟩ : ∃ mp, mp = (5 * d + 2) / 153 := ⟨_, rfl⟩
  have hcases : mp = 0 ∨ mp = 1 ∨ mp = 2 ∨ mp = 3 ∨ mp = 4 ∨ mp = 5 ∨ mp = 6 ∨ mp = 7 ∨ mp = 8 ∨
      mp = 9 ∨ mp = 10 ∨ mp = 11 := by omega
  simp only [marchDate, ← hmp]
  rcases hcases with rfl | rfl | rfl | rfl | rfl | rfl | rfl | rfl | rfl | rfl | rfl | rfl
  case inr.inr.inr.inr.inr.inr.inr.inr.inr.inr.inr =>
    by_cases hlast : d = 365
    · simp [daysIn, hleap hlast]
      omega
    · simp [daysIn]
      split <;> omega
  all_goals
    simp [daysIn]
    omega

theorem month_marchDate (y : Int) {d : Int} (hd : 0 ≤ d ∧ d ≤ 365) :
    1 ≤ (marchDate y d).2.1 ∧ (marchDate y d).2.1 ≤ 12 := by
  simp only [marchDate]
  split <;> omega

/-- Every count of days has a date of the calendar, from which it is computed again. -/
theorem date_of_days (days : Int) :
    (1 ≤ (dateOf days).2.1 ∧ (dateOf days).2.1 ≤ 12) ∧
      (1 ≤ (dateOf days).2.2 ∧ (dateOf days).2.2 ≤ daysIn (dateOf days).1 (dateOf days).2.1) ∧
      daysOf (dateOf days).1 (dateOf days).2.1 (dateOf days).2.2 = days := by
  obtain ⟨era, c, q, k, d, hc, hq, hk, hd, hleap, hdays, hdate⟩ := dateOf_eq_marchDate days
  have hlast : d = 365 → isLeap (era * 400 + 100 * c + 4 * q + k + 1) := by
    intro h
    obtain ⟨rfl, hq | rfl⟩ := hleap h <;> simp only [isLeap, ne_eq, Bool.or_eq_true,
      Bool.and_eq_true, decide_eq_true_eq, decide_not, Bool.not_eq_true', decide_eq_false_iff_not] <;>
      omega
  have hera : (era * 400 + 100 * c + 4 * q + k) / 400 = era := by omega
  have hyear : era * 400 + 100 * c + 4 * q + k - era * 400 = 100 * c + 4 * q + k := by omega
  have hfour : (100 * c + 4 * q + k) / 4 = 25 * c + q := by omega
  have hcentury : (100 * c + 4 * q + k) / 100 = c := by omega
  rw [hdate]
  refine ⟨month_marchDate _ hd, day_marchDate hd hlast, ?_⟩
  rw [daysOf_marchDate _ hd, hera, hyear, hfour, hcentury, hdays]
  omega

end Experiment.Timestamp
