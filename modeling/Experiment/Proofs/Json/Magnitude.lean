import Experiment.Decimal
import Experiment.Json.Basic
import Mathlib.Algebra.Group.Int.Defs
import Mathlib.Algebra.Group.Nat.Defs

/-!
# The size of numbers

Every integer and every double is a multiple of the smallest double, and how many times it has that
is its exact size. Doubles are ranked by their size; an integer that is no double is ranked as the
double next to it, so that integers of different size may have one rank.
-/

namespace Experiment.Number

/-- How often a number has the smallest double, `2 ^ -1074`, in it. -/
def units : Number → Int
  | .int i => i * 2 ^ 1074
  | .float bits =>
    let b := Decimal.Binary.ofBits bits
    (if bits >>> 63 = 1 then -1 else 1) * (b.mantissa * 2 ^ (b.exponent + 1074).toNat : Nat)

def magnitude (n : Nat) : Nat :=
  if n / 2 ^ 52 = 0 then n % 2 ^ 52 else (n % 2 ^ 52 + 2 ^ 52) * 2 ^ (n / 2 ^ 52 - 1)

theorem magnitude_lt {n m : Nat} (h : n < m) : magnitude n < magnitude m := by
  have hn : n % 2 ^ 52 < 2 ^ 52 := Nat.mod_lt _ (by decide)
  have hm : m % 2 ^ 52 < 2 ^ 52 := Nat.mod_lt _ (by decide)
  have hfields : n / 2 ^ 52 < m / 2 ^ 52 ∨ n / 2 ^ 52 = m / 2 ^ 52 ∧ n % 2 ^ 52 < m % 2 ^ 52 := by
    omega
  unfold magnitude
  generalize n / 2 ^ 52 = e at *
  generalize m / 2 ^ 52 = d at *
  generalize n % 2 ^ 52 = f at *
  generalize m % 2 ^ 52 = g at *
  obtain hlt | ⟨rfl, hlt⟩ := hfields
  · have hd : d ≠ 0 := by omega
    have hbelow : (if e = 0 then f else (f + 2 ^ 52) * 2 ^ (e - 1)) < 2 ^ 52 * 2 ^ e := by
      by_cases he : e = 0
      · subst he
        simpa using hn
      · have htwice : 2 ^ e = 2 * 2 ^ (e - 1) := by
          rw [← Nat.pow_succ', Nat.succ_eq_add_one, Nat.sub_add_cancel (by omega)]
        rw [if_neg he, htwice, Nat.mul_left_comm, ← Nat.mul_assoc]
        exact Nat.mul_lt_mul_of_pos_right (by omega) (Nat.two_pow_pos _)
    rw [if_neg hd]
    calc (if e = 0 then f else (f + 2 ^ 52) * 2 ^ (e - 1)) < 2 ^ 52 * 2 ^ e := hbelow
      _ ≤ 2 ^ 52 * 2 ^ (d - 1) :=
          Nat.mul_le_mul_left _ (Nat.pow_le_pow_right (by decide) (by omega))
      _ ≤ (g + 2 ^ 52) * 2 ^ (d - 1) := Nat.mul_le_mul_right _ (by omega)
  · split
    · exact hlt
    · exact Nat.mul_lt_mul_of_pos_right (by omega) (Nat.two_pow_pos _)

theorem mantissa_ofBits (bits : UInt64) :
    (Decimal.Binary.ofBits bits).mantissa *
        2 ^ ((Decimal.Binary.ofBits bits).exponent + 1074).toNat =
      magnitude (bits.toNat % 2 ^ 63) := by
  have he : ((bits >>> 52) &&& 0x7ff).toNat = bits.toNat % 2 ^ 63 / 2 ^ 52 := by
    rw [UInt64.toNat_and, UInt64.toNat_shiftRight]
    change bits.toNat >>> 52 &&& (2 ^ 11 - 1) = _
    rw [Nat.and_two_pow_sub_one_eq_mod, Nat.shiftRight_eq_div_pow]
    omega
  have hf : (bits &&& 0xfffffffffffff).toNat = bits.toNat % 2 ^ 63 % 2 ^ 52 := by
    rw [UInt64.toNat_and]
    change bits.toNat &&& (2 ^ 52 - 1) = _
    rw [Nat.and_two_pow_sub_one_eq_mod]
    omega
  simp only [Decimal.Binary.ofBits, he, hf, magnitude]
  split
  · simp
  next hne =>
    have hexponent : ((bits.toNat % 2 ^ 63 / 2 ^ 52 : Nat) - 1075 + 1074 : Int).toNat =
        bits.toNat % 2 ^ 63 / 2 ^ 52 - 1 := by
      omega
    exact congrArg (fun k => (bits.toNat % 2 ^ 63 % 2 ^ 52 + 2 ^ 52) * 2 ^ k) hexponent

def unitsOfRank : Int → Int
  | .ofNat n => magnitude n
  | .negSucc n => -magnitude (n + 1)

theorem unitsOfRank_neg (n : Nat) : unitsOfRank (-n) = -magnitude n := by
  cases n with
  | zero => rfl
  | succ n => rfl

theorem rank_float (bits : UInt64) : (float bits).rank =
    if bits.toNat < 2 ^ 63 then (bits.toNat : Int) else -(bits.toNat - 2 ^ 63 : Nat) := by
  change (if bits.toNat < 2 ^ 63 then (bits.toNat : Int) else 2 ^ 63 - bits.toNat) = _
  split <;> omega

theorem units_float (bits : UInt64) : (float bits).units = unitsOfRank (float bits).rank := by
  have hlt := bits.toNat_lt
  have hsign : (bits >>> 63 = 1) ↔ ¬ bits.toNat < 2 ^ 63 := by
    rw [← UInt64.toNat_inj, UInt64.toNat_shiftRight]
    change bits.toNat >>> 63 = 1 ↔ _
    rw [Nat.shiftRight_eq_div_pow]
    omega
  simp only [units, mantissa_ofBits, hsign, rank_float]
  by_cases h : bits.toNat < 2 ^ 63
  · rw [if_neg (not_not_intro h), if_pos h, Nat.mod_eq_of_lt h, Int.one_mul]
    rfl
  · have hmod : bits.toNat % 2 ^ 63 = bits.toNat - 2 ^ 63 := by omega
    rw [if_pos h, if_neg h, hmod, Int.neg_one_mul, unitsOfRank_neg]

theorem unitsOfRank_lt {i j : Int} (h : i < j) : unitsOfRank i < unitsOfRank j := by
  have hpos : ∀ n, 0 < magnitude (n + 1) := fun n => magnitude_lt (Nat.succ_pos n)
  cases i with
  | ofNat n =>
      cases j with
      | ofNat m => exact Int.ofNat_lt.2 (magnitude_lt (Int.ofNat_lt.1 h))
      | negSucc m => cases h
  | negSucc n =>
      cases j with
      | ofNat m =>
          have := hpos n
          simp only [unitsOfRank]
          omega
      | negSucc m =>
          have := magnitude_lt (show m + 1 < n + 1 by omega)
          simp only [unitsOfRank]
          omega

/-- Doubles are ranked by their size. -/
theorem units_lt_iff (a b : UInt64) :
    (float a).units < (float b).units ↔ (float a).rank < (float b).rank := by
  rw [units_float, units_float]
  refine ⟨fun h => ?_, unitsOfRank_lt⟩
  obtain hlt | heq | hgt := Int.lt_trichotomy (float a).rank (float b).rank
  · exact hlt
  · rw [heq] at h
    omega
  · have := unitsOfRank_lt hgt
    omega

/-- The double that is nearest to a number. -/
def double (n : Number) : Number :=
  .float n.doubleBits

theorem units_double_lt_iff (n m : Number) : n.double.units < m.double.units ↔ n.rank < m.rank :=
  units_lt_iff n.doubleBits m.doubleBits

theorem units_double_le_iff (n m : Number) : n.double.units ≤ m.double.units ↔ n.rank ≤ m.rank := by
  rw [← Int.not_lt, units_double_lt_iff, Int.not_lt]

theorem units_double_eq_iff (n m : Number) : n.double.units = m.double.units ↔ n.rank = m.rank := by
  have hlt := units_double_lt_iff n m
  have hgt := units_double_lt_iff m n
  omega

end Experiment.Number
