import Experiment.Proofs.Json.Magnitude
import Mathlib

/-!
# The doubles of integers

A double has 53 bits. An integer with more of them is rounded to a multiple of a power of two, to
the nearest one and halfway to the one that is even as a multiple. So the double of an integer has
the size of a rounded integer: rounding keeps the order, but not the difference of two integers, and
it leaves those up to `2 ^ 53` alone.
-/

namespace Experiment.Number

/-- `n / 2 ^ k` to the nearest whole number, and halfway to the even one. -/
def nearest (n k : Nat) : Nat :=
  if 2 * (n % 2 ^ k) < 2 ^ k then n / 2 ^ k
  else if 2 * (n % 2 ^ k) = 2 ^ k then n / 2 ^ k + n / 2 ^ k % 2
  else n / 2 ^ k + 1

/-- A number of any length with 53 bits that count. -/
def roundNat (n : Nat) : Nat :=
  nearest n (n.log2 - 52) * 2 ^ (n.log2 - 52)

def round : Int → Int
  | .ofNat n => roundNat n
  | .negSucc n => -roundNat (n + 1)

section Nearest
variable {n m k : Nat}

theorem nearest_mem (n k : Nat) : nearest n k = n / 2 ^ k ∨ nearest n k = n / 2 ^ k + 1 := by
  unfold nearest
  split
  · exact .inl rfl
  · split
    · omega
    · exact .inr rfl

theorem nearest_close (n k : Nat) :
    2 * n ≤ 2 * (nearest n k * 2 ^ k) + 2 ^ k ∧ 2 * (nearest n k * 2 ^ k) ≤ 2 * n + 2 ^ k := by
  have hn := Nat.div_add_mod' n (2 ^ k)
  have hlt : n % 2 ^ k < 2 ^ k := Nat.mod_lt _ (Nat.two_pow_pos k)
  unfold nearest
  split_ifs
  · omega
  · rcases Nat.mod_two_eq_zero_or_one (n / 2 ^ k) with hb | hb <;> rw [hb, Nat.add_mul] <;> omega
  · rw [Nat.add_mul]
    omega

theorem nearest_mul (n k : Nat) : nearest (n * 2 ^ k) k = n := by
  have hpos := Nat.two_pow_pos k
  rw [nearest, Nat.mul_mod_left, if_pos (by omega), Nat.mul_div_cancel n hpos]

theorem nearest_mono (h : n ≤ m) : nearest n k ≤ nearest m k := by
  rcases Nat.lt_or_eq_of_le (Nat.div_le_div_right h : n / 2 ^ k ≤ m / 2 ^ k) with hlt | heq
  · have hn := nearest_mem n k
    have hm := nearest_mem m k
    omega
  · have hmod : n % 2 ^ k ≤ m % 2 ^ k := by
      have hn := Nat.div_add_mod n (2 ^ k)
      have hm := Nat.div_add_mod m (2 ^ k)
      rw [heq] at hn
      omega
    unfold nearest
    rw [heq]
    split_ifs <;> omega

/-- A number with `k` bits more than 53 is rounded to one of 53 bits, or to the next power. -/
theorem nearest_bounds (hn : n ≠ 0) (hk : n.log2 = 52 + k) :
    2 ^ 52 ≤ nearest n k ∧ nearest n k ≤ 2 ^ 53 := by
  have hlow : 2 ^ 52 ≤ n / 2 ^ k := by
    rw [Nat.le_div_iff_mul_le (Nat.two_pow_pos k), ← Nat.pow_add, ← hk]
    exact Nat.log2_self_le hn
  have hhigh : n / 2 ^ k < 2 ^ 53 := by
    rw [Nat.div_lt_iff_lt_mul (Nat.two_pow_pos k), ← Nat.pow_add]
    have hlt := Nat.lt_log2_self (n := n)
    rwa [hk, Nat.add_right_comm] at hlt
  have hmem := nearest_mem n k
  omega

theorem roundNat_of_lt (h : n < 2 ^ 53) : roundNat n = n := by
  have hk : n.log2 - 52 = 0 := by
    by_cases hn : n = 0
    · simp [hn]
    · have := (Nat.log2_lt hn).2 h
      omega
  have hone := nearest_mul n 0
  simpa [roundNat, hk] using hone

theorem roundNat_bounds (hn : n ≠ 0) : 2 ^ n.log2 ≤ roundNat n ∧ roundNat n ≤ 2 ^ (n.log2 + 1) := by
  by_cases hlog : n.log2 < 52
  · have hlt := Nat.lt_log2_self (n := n)
    have hsmall : n < 2 ^ 53 := hlt.trans_le (Nat.pow_le_pow_right (by decide) (by omega))
    rw [roundNat_of_lt hsmall]
    exact ⟨Nat.log2_self_le hn, hlt.le⟩
  · obtain ⟨k, hk⟩ := Nat.exists_eq_add_of_le (Nat.le_of_not_lt hlog)
    obtain ⟨hlow, hhigh⟩ := nearest_bounds hn hk
    rw [roundNat, hk, Nat.add_sub_cancel_left, Nat.add_right_comm, Nat.pow_add 2 52,
      Nat.pow_add 2 53]
    exact ⟨Nat.mul_le_mul_right _ hlow, Nat.mul_le_mul_right _ hhigh⟩

theorem roundNat_mono (h : n ≤ m) : roundNat n ≤ roundNat m := by
  by_cases hn : n = 0
  · subst hn
    exact Nat.zero_le _
  have hm : m ≠ 0 := by omega
  have hlog : n.log2 ≤ m.log2 := (Nat.le_log2 hm).2 ((Nat.log2_self_le hn).trans h)
  rcases Nat.lt_or_eq_of_le hlog with hlt | heq
  · calc roundNat n ≤ 2 ^ (n.log2 + 1) := (roundNat_bounds hn).2
      _ ≤ 2 ^ m.log2 := Nat.pow_le_pow_right (by decide) hlt
      _ ≤ roundNat m := (roundNat_bounds hm).1
  · rw [roundNat, roundNat, heq]
    exact Nat.mul_le_mul_right _ (nearest_mono h)

/-- An integer of 64 bits has at most 11 bits that do not count. -/
theorem roundNat_close (hlt : n < 2 ^ 64) : n ≤ roundNat n + 2 ^ 10 ∧ roundNat n ≤ n + 2 ^ 10 := by
  have hlog : n.log2 - 52 ≤ 11 := by
    by_cases hn : n = 0
    · simp [hn]
    · have := (Nat.log2_lt hn).2 hlt
      omega
  have hstep : 2 ^ (n.log2 - 52) ≤ 2 ^ 11 := Nat.pow_le_pow_right (by decide) hlog
  have hclose := nearest_close n (n.log2 - 52)
  unfold roundNat
  omega

theorem roundNat_of_le (h : n ≤ 2 ^ 53) : roundNat n = n := by
  rcases Nat.lt_or_eq_of_le h with hlt | rfl
  · exact roundNat_of_lt hlt
  · decide

end Nearest

section Round
variable {i j : Int}

theorem round_neg (n : Nat) : round (-n) = -roundNat n := by
  cases n with
  | zero => rfl
  | succ n => rfl

theorem round_mono (h : i ≤ j) : round i ≤ round j := by
  rcases Int.eq_nat_or_neg i with ⟨n, rfl | rfl⟩ <;> rcases Int.eq_nat_or_neg j with ⟨m, rfl | rfl⟩
  · have := roundNat_mono (Int.ofNat_le.1 h)
    exact Int.ofNat_le.2 this
  · obtain ⟨rfl, rfl⟩ : n = 0 ∧ m = 0 := by omega
    exact Int.le_refl _
  · rw [round_neg]
    exact (Int.neg_nonpos_of_nonneg (Int.natCast_nonneg _)).trans (Int.natCast_nonneg _)
  · have := roundNat_mono (show m ≤ n by omega)
    rw [round_neg, round_neg]
    omega

theorem round_close (h : fits i = true) : i ≤ round i + 2 ^ 10 ∧ round i ≤ i + 2 ^ 10 := by
  have hrange : -2 ^ 63 ≤ i ∧ i < 2 ^ 64 := by simpa [fits] using h
  rcases Int.eq_nat_or_neg i with ⟨n, rfl | rfl⟩
  · have hclose := roundNat_close (show n < 2 ^ 64 by omega)
    change (n : Int) ≤ roundNat n + 2 ^ 10 ∧ (roundNat n : Int) ≤ n + 2 ^ 10
    omega
  · have hclose := roundNat_close (show n < 2 ^ 64 by omega)
    rw [round_neg]
    omega

theorem round_of_natAbs_le (h : i.natAbs ≤ 2 ^ 53) : round i = i := by
  rcases Int.eq_nat_or_neg i with ⟨n, rfl | rfl⟩
  · exact congrArg Int.ofNat (roundNat_of_le (by omega))
  · rw [round_neg, roundNat_of_le (by omega)]

end Round

section Float
open Float.Model Float.Model.UnpackedFloat

/-- What is left of a number, and what is known of the bits that were shifted out: whether they are
at least one half, and whether they are neither nothing nor one half. -/
structure Shifted (n k : Nat) (em : ExtendedMantissa) : Prop where
  mantissa : em.mantissa = n / 2 ^ k
  half : em.roundBit = decide (2 ^ k ≤ 2 * (n % 2 ^ k))
  sticky : em.stickyBit = decide (n % 2 ^ k ≠ 0 ∧ 2 * (n % 2 ^ k) ≠ 2 ^ k)

theorem Shifted.succ {n k : Nat} {em : ExtendedMantissa} (h : Shifted n k em) :
    Shifted n (k + 1) em.shiftRightOne := by
  have hlt : n % 2 ^ k < 2 ^ k := Nat.mod_lt _ (Nat.two_pow_pos k)
  have hpow : 2 ^ (k + 1) = 2 ^ k * 2 := Nat.pow_succ 2 k
  have hrest : n / 2 ^ k % 2 = 0 ∧ n % 2 ^ (k + 1) = n % 2 ^ k ∨
      n / 2 ^ k % 2 = 1 ∧ n % 2 ^ (k + 1) = n % 2 ^ k + 2 ^ k := by
    -- the bit that is shifted out next is the highest one of the new remainder
    rw [Nat.mod_pow_succ]
    rcases Nat.mod_two_eq_zero_or_one (n / 2 ^ k) with hb | hb <;> simp [hb]
  constructor
  · rw [ExtendedMantissa.shiftRightOne, h.mantissa, Nat.div_div_eq_div_mul, hpow]
  · simp only [ExtendedMantissa.shiftRightOne, h.mantissa]
    rcases hrest with ⟨hb, hr⟩ | ⟨hb, hr⟩
    · have : ¬ 2 ^ (k + 1) ≤ 2 * (n % 2 ^ (k + 1)) := by omega
      simp [hb, this]
    · have : 2 ^ (k + 1) ≤ 2 * (n % 2 ^ (k + 1)) := by omega
      simp [hb, this]
  · simp only [ExtendedMantissa.shiftRightOne, h.half, h.sticky, ← Bool.decide_or]
    exact decide_eq_decide.2 (by omega)

theorem shifted_shiftRight (n k : Nat) :
    Shifted n k (ExtendedMantissa.ofMantissaAndAccuracy n .exact >>> k) := by
  induction k with
  | zero =>
      have hnone : n % 2 ^ 0 = 0 := Nat.mod_one n
      exact ⟨(Nat.div_one n).symm, by rw [hnone]; rfl, by rw [hnone]; rfl⟩
  | succ k ih => exact ih.succ

theorem roundedMantissa_eq (em : ExtendedMantissa) : em.roundedMantissa =
    if em.roundBit then
      if em.stickyBit then em.mantissa + 1 else em.mantissa + em.mantissa % 2
    else em.mantissa := by
  obtain ⟨m, half | half, sticky | sticky⟩ := em <;> rfl

theorem Shifted.roundedMantissa {n k : Nat} {em : ExtendedMantissa} (h : Shifted n k em) :
    em.roundedMantissa = nearest n k := by
  have hpos := Nat.two_pow_pos k
  rw [roundedMantissa_eq, h.mantissa, h.half, h.sticky, nearest]
  simp only [decide_eq_true_eq]
  split_ifs <;> omega

theorem targetExponent_eq (m : Nat) {e : Int} (he : -1022 ≤ m.log2 + e) :
    Format.binary64.targetExponent (totalExponent m e) = m.log2 + e - 52 := by
  have hmin : Format.binary64.minExponent = -1074 := by decide
  have hbits : (Format.binary64.mantissaBits : Int) = 53 := by decide
  rw [Format.targetExponent, totalExponent, hmin, hbits]
  omega

theorem shift_fitting {q : Nat} {e : Int} (he : -1074 ≤ e) (hlow : 2 ^ 52 ≤ q)
    (hhigh : q < 2 ^ 53) :
    shiftToTargetExponent Format.binary64 q e .exact = (⟨q, false, false⟩, e) := by
  have hlog : q.log2 = 52 := (Nat.log2_eq_iff (by omega)).2 ⟨hlow, hhigh⟩
  have hnone : ((52 : Nat) + e - 52 - e : Int).toNat = 0 := by omega
  rw [shiftToTargetExponent, targetExponent_eq q (by omega), hlog, shiftToExponent]
  simp only [hnone, Int.natCast_zero, Int.add_zero]
  rfl

theorem shift_carry {e : Int} (he : -1074 ≤ e) :
    shiftToTargetExponent Format.binary64 (2 ^ 53) e .exact = (⟨2 ^ 52, false, false⟩, e + 1) := by
  have hlog : (2 ^ 53).log2 = 53 := Nat.log2_two_pow
  have hone : ((53 : Nat) + e - 52 - e : Int).toNat = 1 := by omega
  rw [shiftToTargetExponent, targetExponent_eq (2 ^ 53) (by omega), hlog, shiftToExponent]
  simp only [hone]
  rfl

/-- A finite double of 53 bits, and its bits without the sign. -/
def Normal (sign : Sign) (bits : Nat) (x : UnpackedFloat) : Prop :=
  ∃ m e, ∃ hm : 0 < m, x = .finite sign m e hm ∧ 2 ^ 52 ≤ m ∧ m < 2 ^ 53 ∧
    -1074 ≤ e ∧ e ≤ 971 ∧ bits = (e + 1074).toNat * 2 ^ 52 + m

theorem toNat_packComponents (s : Sign) (e : BitVec 11) (m : BitVec 52) :
    (packComponents Format.binary64 s e m).toNat =
      s.toBitVec.toNat * 2 ^ 63 + e.toNat * 2 ^ 52 + m.toNat := by
  have he := e.isLt
  have hm := m.isLt
  change ((s.toBitVec ++ e) ++ m).toNat = _
  rw [BitVec.toNat_append, BitVec.toNat_append, ← Nat.shiftLeft_add_eq_or_of_lt hm,
    ← Nat.shiftLeft_add_eq_or_of_lt he, Nat.shiftLeft_eq, Nat.shiftLeft_eq]
  omega

theorem pack_finite (s : Sign) {m : Nat} {e : Int} (hm : 0 < m) (hlow : 2 ^ 52 ≤ m)
    (hhigh : m < 2 ^ 53) (hmin : -1074 ≤ e) (hmax : e ≤ 971) :
    UnpackedFloat.pack Format.binary64 (.finite s m e hm) = packComponents Format.binary64 s
      (BitVec.ofNat 11 (e + 1075).toNat) (BitVec.ofNat 52 m) := by
  have hlog : m.log2 = 52 := (Nat.log2_eq_iff (by omega)).2 ⟨hlow, hhigh⟩
  have hbias : (Format.binary64.exponentBias : Int) = 1023 := by decide
  have hbits : Format.binary64.mantissaBits = 53 := by decide
  have hbiased : (e + 1023 + (52 : Nat)).toNat = (e + 1075).toNat := by omega
  have hfits : ¬ 2 ^ 11 ≤ (e + 1075).toNat + 1 := by omega
  rw [UnpackedFloat.pack, hbias, hlog, hbits, hbiased, if_neg hfits, if_pos rfl]

section Normal
variable {s : Sign} {b : Nat} {x : UnpackedFloat}

theorem Normal.toNat_pack (h : Normal s b x) :
    (UnpackedFloat.pack Format.binary64 x).toNat = s.toBitVec.toNat * 2 ^ 63 + b := by
  obtain ⟨m, e, hm, rfl, hlow, hhigh, hmin, hmax, rfl⟩ := h
  rw [pack_finite s hm hlow hhigh hmin hmax, toNat_packComponents, BitVec.toNat_ofNat,
    BitVec.toNat_ofNat]
  omega

theorem Normal.unpack_pack (h : Normal s b x) :
    UnpackedFloat.unpack Format.binary64 (UnpackedFloat.pack Format.binary64 x) = x := by
  obtain ⟨m, e, hm, rfl, hlow, hhigh, hmin, hmax, rfl⟩ := h
  have hbias : (Format.binary64.exponentBias : Int) = 1023 := by decide
  have hfield : (BitVec.ofNat 11 (e + 1075).toNat).toNat = (e + 1075).toNat := by
    rw [BitVec.toNat_ofNat]
    omega
  -- the exponents that mark infinite doubles and those without an implicit bit are not reached
  have htop : BitVec.ofNat 11 (e + 1075).toNat ≠ -1#11 := by
    intro heq
    rw [heq] at hfield
    change 2047 = (e + 1075).toNat at hfield
    omega
  have hzero : BitVec.ofNat 11 (e + 1075).toNat ≠ 0#11 := by
    intro heq
    rw [heq] at hfield
    change 0 = (e + 1075).toNat at hfield
    omega
  have hmantissa : (1#1 ++ BitVec.ofNat 52 m).toNat = m := by
    rw [BitVec.toNat_append, ← Nat.shiftLeft_add_eq_or_of_lt (BitVec.isLt _), Nat.shiftLeft_eq,
      BitVec.toNat_ofNat, BitVec.toNat_ofNat]
    omega
  have hexponent : ((e + 1075).toNat : Int) - (1023 + (52 : Nat)) = e := by omega
  rw [pack_finite s hm hlow hhigh hmin hmax]
  simp only [UnpackedFloat.unpack, unpackMantissa_packComponents, unpackExponent_packComponents,
    unpackSign_packComponents, Sign.ofBitVec_toBitVec, htop, hzero, if_false, hbias, hmantissa, hfield,
    hexponent]

theorem Normal.neg (h : Normal s b x) : Normal (-s) b x.neg := by
  obtain ⟨m, e, hm, rfl, hlow, hhigh, hmin, hmax, rfl⟩ := h
  exact ⟨m, e, hm, rfl, hlow, hhigh, hmin, hmax, rfl⟩

end Normal

/-- A number that is longer than 53 bits is shifted to this length and rounded. If rounding carries
over, one more bit is shifted out. -/
theorem normal_roundWithAccuracy {m k : Nat} {e : Int} (s : Sign) (hm : m ≠ 0)
    (hlog : m.log2 = 52 + k) (hmin : -1074 ≤ e + k) (hmax : e + k < 971) :
    Normal s ((e + k + 1074).toNat * 2 ^ 52 + nearest m k)
      (roundWithAccuracy Format.binary64 s m e .exact) := by
  obtain ⟨hlow, hhigh⟩ := nearest_bounds hm hlog
  have hshift : shiftToTargetExponent Format.binary64 m e .exact =
      (ExtendedMantissa.ofMantissaAndAccuracy m .exact >>> k, e + k) := by
    have hk : (((52 + k : Nat) : Int) + e - 52 - e).toNat = k := by omega
    rw [shiftToTargetExponent, targetExponent_eq m (by omega), hlog, shiftToExponent]
    simp only [hk]
  rcases Nat.lt_or_eq_of_le hhigh with hlt | heq
  · refine ⟨nearest m k, e + k, by omega, ?_, hlow, hlt, hmin, by omega, rfl⟩
    rw [roundWithAccuracy, hshift]
    simp only [(shifted_shiftRight m k).roundedMantissa, shift_fitting hmin hlow hlt]
    exact dif_neg (by omega)
  · refine ⟨2 ^ 52, e + k + 1, by decide, ?_, by omega, by omega, by omega, by omega, by omega⟩
    rw [roundWithAccuracy, hshift]
    simp only [(shifted_shiftRight m k).roundedMantissa, heq, shift_carry hmin]
    rfl

theorem log2_scaled {n : Nat} (hn : n ≠ 0) (k : Nat) : (n * 2 ^ k).log2 = n.log2 + k := by
  have hpos := Nat.two_pow_pos k
  refine (Nat.log2_eq_iff (Nat.mul_ne_zero hn (by omega))).2 ⟨?_, ?_⟩
  · rw [Nat.pow_add]
    exact Nat.mul_le_mul_right _ (Nat.log2_self_le hn)
  · rw [Nat.add_right_comm, Nat.pow_add]
    exact Nat.mul_lt_mul_of_pos_right Nat.lt_log2_self hpos

/-- The 53 bits of an integer: a short one is filled up, a long one rounded. -/
def mantissaOf (n : Nat) : Nat :=
  nearest (n * 2 ^ (52 - n.log2)) (n.log2 - 52)

def bitsOf (n : Nat) : Nat :=
  (n.log2 + 1022) * 2 ^ 52 + mantissaOf n

section Integers
variable {n : Nat}

theorem log2_filled (hn : n ≠ 0) : (n * 2 ^ (52 - n.log2)).log2 = 52 + (n.log2 - 52) := by
  rw [log2_scaled hn]
  omega

theorem filled_ne_zero (hn : n ≠ 0) : n * 2 ^ (52 - n.log2) ≠ 0 :=
  Nat.mul_ne_zero hn (Nat.pos_iff_ne_zero.1 (Nat.two_pow_pos _))

theorem mantissaOf_bounds (hn : n ≠ 0) : 2 ^ 52 ≤ mantissaOf n ∧ mantissaOf n ≤ 2 ^ 53 :=
  nearest_bounds (filled_ne_zero hn) (log2_filled hn)

/-- The 53 bits of an integer stand for the rounded integer. -/
theorem mantissaOf_mul (n : Nat) : mantissaOf n * 2 ^ (n.log2 + 1022) = roundNat n * 2 ^ 1074 := by
  by_cases hlog : n.log2 < 52
  · have hsmall : n < 2 ^ 53 :=
      Nat.lt_log2_self.trans_le (Nat.pow_le_pow_right (by decide) (by omega))
    have hzero : n.log2 - 52 = 0 := by omega
    have hfilled : mantissaOf n = n * 2 ^ (52 - n.log2) := by
      have h := nearest_mul (n * 2 ^ (52 - n.log2)) 0
      rwa [Nat.pow_zero, Nat.mul_one, ← hzero] at h
    have hsum : 52 - n.log2 + (n.log2 + 1022) = 1074 := by omega
    rw [hfilled, roundNat_of_lt hsmall, Nat.mul_assoc, ← Nat.pow_add]
    exact congrArg (fun t => n * 2 ^ t) hsum
  · have hzero : 52 - n.log2 = 0 := by omega
    have hsum : n.log2 - 52 + 1074 = n.log2 + 1022 := by omega
    rw [mantissaOf, roundNat, hzero, Nat.pow_zero, Nat.mul_one, Nat.mul_assoc, ← Nat.pow_add, hsum]

theorem normal_round (s : Sign) (hn : n ≠ 0) (hlt : n < 2 ^ 64) :
    Normal s (bitsOf n) (UnpackedFloat.round Format.binary64 s n 0) := by
  have hlog : n.log2 < 64 := (Nat.log2_lt hn).2 hlt
  have hfill : (0 - (n.log2 + 0 - 52 : Int)).toNat = 52 - n.log2 := by omega
  have hexponent : (0 - ((52 - n.log2 : Nat) : Int) + (n.log2 - 52 : Nat) + 1074).toNat =
      n.log2 + 1022 := by
    omega
  have h := normal_roundWithAccuracy (e := 0 - ((52 - n.log2 : Nat) : Int)) s (filled_ne_zero hn)
    (log2_filled hn) (by omega) (by omega)
  rw [hexponent] at h
  rw [UnpackedFloat.round, targetExponent_eq n (by omega)]
  simp only [decreaseExponent, hfill, Nat.shiftLeft_eq]
  exact h

theorem ofNat_eq_round (hn : n ≠ 0) :
    UnpackedFloat.ofNat Format.binary64 n = UnpackedFloat.round Format.binary64 .positive n 0 := by
  have hpositive : compare (n : Int) 0 = .gt := Int.compare_eq_gt.2 (by omega)
  rw [UnpackedFloat.ofNat, UnpackedFloat.ofInt, UnpackedFloat.normalize, hpositive]
  rfl

theorem toBitVec_toFloat (hn : n ≠ 0) (hlt : n < 2 ^ 64) : n.toUInt64.toFloat.toBits.toBitVec =
    UnpackedFloat.pack Format.binary64 (UnpackedFloat.round Format.binary64 .positive n 0) := by
  have hto : n.toUInt64.toNat = n := UInt64.toNat_ofNat_of_lt hlt
  rw [← ofNat_eq_round hn]
  exact congrArg (fun k => UnpackedFloat.pack Format.binary64 (.ofNat Format.binary64 k)) hto

theorem toNat_toBits (hn : n ≠ 0) (hlt : n < 2 ^ 64) :
    n.toUInt64.toFloat.toBits.toNat = bitsOf n := by
  rw [← UInt64.toNat_toBitVec, toBitVec_toFloat hn hlt, (normal_round .positive hn hlt).toNat_pack]
  exact Nat.zero_add _

theorem toNat_toBits_neg (hn : n ≠ 0) (hlt : n < 2 ^ 64) :
    (-n.toUInt64.toFloat).toBits.toNat = 2 ^ 63 + bitsOf n := by
  have h := normal_round .positive hn hlt
  change (UnpackedFloat.pack Format.binary64 (UnpackedFloat.neg (UnpackedFloat.unpack
    Format.binary64 n.toUInt64.toFloat.toBits.toBitVec))).toNat = _
  rw [toBitVec_toFloat hn hlt, h.unpack_pack, h.neg.toNat_pack]
  rfl

end Integers

end Float

section Units
variable {n : Nat} {i j : Int}

/-- A mantissa of 53 bits, or the one that a carry made of it, at an exponent. -/
theorem magnitude_of_mantissa {q : Nat} (t : Nat) (hlow : 2 ^ 52 ≤ q) (hhigh : q ≤ 2 ^ 53) :
    magnitude (t * 2 ^ 52 + q) = q * 2 ^ t := by
  rcases Nat.lt_or_eq_of_le hhigh with hlt | rfl
  · have hdiv : (t * 2 ^ 52 + q) / 2 ^ 52 = t + 1 := by omega
    have hmod : (t * 2 ^ 52 + q) % 2 ^ 52 + 2 ^ 52 = q := by omega
    rw [magnitude, hdiv, hmod, if_neg (Nat.succ_ne_zero t), Nat.add_sub_cancel]
  · have hdiv : (t * 2 ^ 52 + 2 ^ 53) / 2 ^ 52 = t + 2 := by omega
    have hmod : (t * 2 ^ 52 + 2 ^ 53) % 2 ^ 52 = 0 := by omega
    rw [magnitude, hdiv, hmod, if_neg (Nat.succ_ne_zero _), Nat.zero_add]
    change 2 ^ 52 * 2 ^ (t + 1) = 2 ^ (52 + 1) * 2 ^ t
    rw [Nat.pow_succ 2 t, Nat.pow_succ 2 52, Nat.mul_right_comm, Nat.mul_assoc]

theorem magnitude_bitsOf (hn : n ≠ 0) : magnitude (bitsOf n) = roundNat n * 2 ^ 1074 := by
  obtain ⟨hlow, hhigh⟩ := mantissaOf_bounds hn
  rw [bitsOf, magnitude_of_mantissa _ hlow hhigh, mantissaOf_mul]

theorem bitsOf_lt (hn : n ≠ 0) (hlt : n < 2 ^ 64) : bitsOf n < 2 ^ 63 := by
  have hlog : n.log2 < 64 := (Nat.log2_lt hn).2 hlt
  have hhigh := (mantissaOf_bounds hn).2
  unfold bitsOf
  omega

theorem rank_nat (hn : n ≠ 0) (hlt : n < 2 ^ 64) : (int n).rank = bitsOf n := by
  have hbits : (int n).doubleBits = n.toUInt64.toFloat.toBits := by
    rw [doubleBits, if_pos (Int.natCast_nonneg n), Int.toNat_natCast]
  change (float (int n).doubleBits).rank = _
  rw [rank_float, hbits, toNat_toBits hn hlt, if_pos (bitsOf_lt hn hlt)]

theorem rank_neg (hn : n ≠ 0) (hlt : n < 2 ^ 64) : (int (-n)).rank = -bitsOf n := by
  have hbits : (int (-n)).doubleBits = (-n.toUInt64.toFloat).toBits := by
    rw [doubleBits, if_neg (by omega), Int.natAbs_neg, Int.natAbs_natCast]
  change (float (int (-n)).doubleBits).rank = _
  rw [rank_float, hbits, toNat_toBits_neg hn hlt, if_neg (by omega), Nat.add_sub_cancel_left]

/-- The double of an integer has the size of the rounded integer. -/
theorem units_double_int (h : fits i = true) : (int i).double.units = (int (round i)).units := by
  have hrange : -2 ^ 63 ≤ i ∧ i < 2 ^ 64 := by simpa [fits] using h
  have hunits : (int i).double.units = unitsOfRank (int i).rank := units_float (int i).doubleBits
  change _ = round i * 2 ^ 1074
  rw [hunits]
  rcases Int.eq_nat_or_neg i with ⟨n, hi⟩
  by_cases hn : n = 0
  · obtain rfl : i = 0 := by omega
    have hzero : (int 0).rank = 0 := by decide +kernel
    rw [hzero]
    exact (Int.zero_mul _).symm
  · have hmagnitude : (magnitude (bitsOf n) : Int) = roundNat n * 2 ^ 1074 := by
      rw [magnitude_bitsOf hn, Int.natCast_mul, Int.natCast_pow, Int.cast_ofNat_Int]
    rcases hi with rfl | rfl
    · rw [rank_nat hn (by omega)]
      exact hmagnitude
    · rw [rank_neg hn (by omega), unitsOfRank_neg, hmagnitude, round_neg, Int.neg_mul]

theorem units_int_le_iff : (int i).units ≤ (int j).units ↔ i ≤ j :=
  Int.mul_le_mul_iff_of_pos_right (Int.pow_pos (by decide))

theorem units_int_eq_iff : (int i).units = (int j).units ↔ i = j := by
  refine ⟨fun h => Int.le_antisymm ?_ ?_, fun h => by rw [h]⟩
  · exact units_int_le_iff.1 (Int.le_of_eq h)
  · exact units_int_le_iff.1 (Int.le_of_eq h.symm)

end Units

end Experiment.Number
