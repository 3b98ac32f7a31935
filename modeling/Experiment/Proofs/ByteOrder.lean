import Mathlib.Data.Nat.Init
import Mathlib.Data.String.Basic

/-!
# Texts in the order of their bytes

Texts are compared character by character, and files are listed by the bytes of their names. Both
orders are the same: a character is encoded as a leading byte, greater the more bytes follow it, and
bytes of six bits each from the highest to the lowest.
-/

namespace Experiment.Text

def bytes (s : String) : List UInt8 :=
  s.toUTF8.data.toList

theorem bytes_eq (s : String) : bytes s = s.toList.flatMap String.utf8EncodeChar := by
  have h : (String.ofList s.toList).toByteArray = s.toList.utf8Encode := String.toByteArray_ofList
  rw [String.ofList_toList] at h
  rw [bytes, String.toUTF8, h, List.utf8Encode, List.data_toByteArray, List.toList_toArray]

theorem fromUTF8?_toUTF8 (s : String) : String.fromUTF8? s.toUTF8 = some s :=
  dif_pos s.isValidUTF8

/-- A leading byte with the highest bits of a number, and its lower bits in `k` bytes. -/
def spread (lead : Nat) : Nat → Nat → List UInt8
  | 0, v => [UInt8.ofNat (v + lead)]
  | k + 1, v => spread lead k (v / 64) ++ [UInt8.ofNat (v % 64 + 128)]

theorem ofNat_lt {a b : Nat} (h : a < b) (hb : b < 256) : UInt8.ofNat a < UInt8.ofNat b := by
  rw [UInt8.lt_iff_toNat_lt, UInt8.toNat_ofNat', UInt8.toNat_ofNat']
  omega

theorem spread_eq (lead k v : Nat) :
    ∃ rest, spread lead k v = UInt8.ofNat (v / 64 ^ k + lead) :: rest := by
  induction k generalizing v with
  | zero => exact ⟨[], by rw [spread, pow_zero, Nat.div_one]⟩
  | succ k ih =>
      obtain ⟨rest, hrest⟩ := ih (v / 64)
      rw [Nat.div_div_eq_div_mul, ← pow_succ'] at hrest
      exact ⟨rest ++ [UInt8.ofNat (v % 64 + 128)], by rw [spread, hrest, List.cons_append]⟩

theorem spread_lt_of_head {lead lead' k m v w : Nat}
    (h : v / 64 ^ k + lead < w / 64 ^ m + lead') (hw : w / 64 ^ m + lead' < 256)
    (as bs : List UInt8) : spread lead k v ++ as < spread lead' m w ++ bs := by
  obtain ⟨rest, hv⟩ := spread_eq lead k v
  obtain ⟨rest', hw'⟩ := spread_eq lead' m w
  rw [hv, hw', List.cons_append, List.cons_append]
  exact List.cons_lt_cons_iff.2 (Or.inl (ofNat_lt h hw))

/-- With as many bytes, the greater number has the greater first byte that differs. -/
theorem spread_lt {lead k v w : Nat} (h : v < w) (hw : w / 64 ^ k + lead < 256)
    (as bs : List UInt8) : spread lead k v ++ as < spread lead k w ++ bs := by
  induction k generalizing v w as bs with
  | zero =>
      apply spread_lt_of_head _ hw
      rw [pow_zero, Nat.div_one, Nat.div_one]
      omega
  | succ k ih =>
      rw [spread, spread, List.append_assoc, List.append_assoc]
      rw [pow_succ', ← Nat.div_div_eq_div_mul] at hw
      by_cases hv : v / 64 < w / 64
      · exact ih hv hw _ _
      · have hsame : v / 64 = w / 64 := by omega
        rw [hsame]
        apply List.append_left_lt
        apply List.cons_lt_cons_iff.2
        apply Or.inl
        apply ofNat_lt
        · omega
        · omega

theorem val_le (c : Char) : c.val.toNat < 0x110000 := by
  have h := c.valid
  unfold UInt32.isValidChar Nat.isValidChar at h
  omega

def following (v : Nat) : Nat :=
  if v ≤ 127 then 0 else if v ≤ 2047 then 1 else if v ≤ 65535 then 2 else 3

/-- Where those leading bytes begin that so many others follow. -/
def leading : Nat → Nat
  | 0 => 0
  | 1 => 192
  | 2 => 224
  | 3 => 240
  | _ => 248

theorem following_mono : Monotone following := by
  intro v w h
  unfold following
  split_ifs <;> omega

theorem leading_mono : Monotone leading := by
  apply monotone_nat_of_le_succ
  intro k
  match k with
  | 0 | 1 | 2 | 3 => decide
  | _ + 4 => exact Nat.le_refl 248

theorem leading_le (k : Nat) : leading k ≤ 248 := by
  unfold leading
  split <;> omega

theorem head_lt_leading {v : Nat} (hv : v < 0x110000) :
    v / 64 ^ following v + leading (following v) < leading (following v + 1) := by
  unfold following
  split_ifs <;> simp only [leading] <;> omega

theorem utf8EncodeChar_eq (c : Char) : String.utf8EncodeChar c =
    spread (leading (following c.val.toNat)) (following c.val.toNat) c.val.toNat := by
  have hc := val_le c
  unfold String.utf8EncodeChar following
  generalize c.val.toNat = v at hc ⊢
  dsimp only
  by_cases h1 : v ≤ 127
  · rw [if_pos h1, if_pos h1]
    rfl
  · rw [if_neg h1, if_neg h1]
    by_cases h2 : v ≤ 2047
    · rw [if_pos h2, if_pos h2, Nat.mod_eq_of_lt (by omega)]
      rfl
    · rw [if_neg h2, if_neg h2]
      by_cases h3 : v ≤ 65535
      · rw [if_pos h3, if_pos h3, Nat.mod_eq_of_lt (by omega)]
        simp only [spread, Nat.div_div_eq_div_mul]
        rfl
      · rw [if_neg h3, if_neg h3, Nat.mod_eq_of_lt (by omega)]
        simp only [spread, Nat.div_div_eq_div_mul]
        rfl

theorem utf8EncodeChar_lt {c d : Char} (h : c < d) (as bs : List UInt8) :
    String.utf8EncodeChar c ++ as < String.utf8EncodeChar d ++ bs := by
  have hlt : c.val.toNat < d.val.toNat := UInt32.lt_iff_toNat_lt.1 (Char.lt_def.1 h)
  have hc := head_lt_leading (val_le c)
  have hd := head_lt_leading (val_le d)
  rw [utf8EncodeChar_eq, utf8EncodeChar_eq]
  generalize c.val.toNat = v at hlt hc
  generalize d.val.toNat = w at hlt hd
  have hbound : w / 64 ^ following w + leading (following w) < 256 := by
    have hle := leading_le (following w + 1)
    omega
  by_cases hk : following v = following w
  · rw [hk]
    exact spread_lt hlt hbound _ _
  · have hmore : following v + 1 ≤ following w :=
      lt_of_le_of_ne (following_mono hlt.le) hk
    apply spread_lt_of_head _ hbound
    calc v / 64 ^ following v + leading (following v)
        < leading (following v + 1) := hc
      _ ≤ leading (following w) := leading_mono hmore
      _ ≤ w / 64 ^ following w + leading (following w) := Nat.le_add_left _ _

/-- The bytes of texts are in the order of the texts. -/
theorem bytes_lt_of_lt {s t : String} (h : s < t) : bytes s < bytes t := by
  rw [bytes_eq, bytes_eq]
  replace h := String.lt_iff_toList_lt.1 h
  generalize s.toList = cs at h
  generalize t.toList = ds at h
  induction cs generalizing ds with
  | nil =>
      cases ds with
      | nil => exact absurd h (List.lt_irrefl _)
      | cons d ds =>
          have hd : String.utf8EncodeChar d ≠ [] := String.utf8EncodeChar_ne_nil
          obtain ⟨b, rest, hd⟩ := List.ne_nil_iff_exists_cons.1 hd
          rw [List.flatMap_nil, List.flatMap_cons, hd]
          exact List.nil_lt_cons _ _
  | cons c cs ih =>
      cases ds with
      | nil => exact absurd h (List.not_lt_nil _)
      | cons d ds =>
          rw [List.flatMap_cons, List.flatMap_cons]
          obtain hlt | ⟨rfl, hrest⟩ := List.cons_lt_cons_iff.1 h
          · exact utf8EncodeChar_lt hlt _ _
          · exact List.append_left_lt (ih ds hrest)

end Experiment.Text
