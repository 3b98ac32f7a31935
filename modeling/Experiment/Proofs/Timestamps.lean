import Experiment.Proofs.Calendar
import Mathlib.Algebra.Group.Nat.Defs

/-!
# Moments are read back from their texts

Whatever text a moment was read from, the text that is written of it is read as the same moment. A
leap second is written as the second 60, which only a minute that is full by the clock can have;
offsets are whole minutes, so this holds of every moment that was read.
-/

namespace Experiment.Timestamp
variable {width n : Nat} {rest : List Char}

/-- The number that digits stand for. -/
def digitsValue (ds : List Char) : Nat :=
  ds.foldl (fun n c => n * 10 + (c.toNat - '0'.toNat)) 0

theorem digitsValue_eq_ofDigitChars (ds : List Char) :
    digitsValue ds = Nat.ofDigitChars 10 ds 0 := by
  rw [digitsValue, Nat.ofDigitChars_eq_foldl]
  simp only [Nat.mul_comm]

theorem digitsValue_pad (width n : Nat) : digitsValue (pad width n) = n := by
  rw [digitsValue_eq_ofDigitChars, pad, Nat.ofDigitChars_append, Nat.ofDigitChars_replicate_zero,
    Nat.mul_zero, Nat.ofDigitChars_ten_toDigits]

theorem isDigit_of_mem_pad {c : Char} (h : c ∈ pad width n) : c.isDigit = true := by
  obtain h | h := List.mem_append.1 h
  · rw [List.eq_of_mem_replicate h]
    rfl
  · exact Nat.isDigit_of_mem_toDigits (by decide) (by decide) h

theorem length_pad (hw : 0 < width) (hn : n < 10 ^ width) : (pad width n).length = width := by
  have hle := (Nat.length_toDigits_le_iff (b := 10) (by decide) hw).2 hn
  rw [pad, List.length_append, List.length_replicate]
  omega

theorem pad_ne_nil (width n : Nat) : pad width n ≠ [] :=
  List.append_ne_nil_of_right_ne_nil _ Nat.toDigits_ne_nil

theorem takeWhile_isDigit {ds : List Char} (hd : ∀ c ∈ ds, c.isDigit = true) (rest : List Char)
    (hr : ∀ c ∈ rest.head?, c.isDigit = false) : (ds ++ rest).takeWhile Char.isDigit = ds := by
  rw [List.takeWhile_append_of_pos hd]
  cases rest with
  | nil => rw [List.takeWhile_nil, List.append_nil]
  | cons c rest => rw [List.takeWhile_cons_of_neg (by simp [hr c rfl]), List.append_nil]

theorem digits?_append {ds : List Char} (hd : ∀ c ∈ ds, c.isDigit = true) (hn : ds ≠ [])
    (hl : ds.length = width ∨ ds.length ≤ width ∧ ∀ c ∈ rest.head?, c.isDigit = false) :
    digits? width (ds ++ rest) = some (digitsValue ds, rest) := by
  have htake : ((ds ++ rest).take width).takeWhile Char.isDigit = ds := by
    obtain rfl | ⟨hle, hr⟩ := hl
    · rw [List.take_left' rfl, ← List.append_nil ds]
      exact (takeWhile_isDigit hd [] nofun).trans (List.append_nil ds).symm
    · rw [List.take_append, List.take_of_length_le hle]
      refine takeWhile_isDigit hd _ fun c hc => hr c ?_
      rw [List.head?_take] at hc
      split at hc
      · cases hc
      · exact hc
  rw [digits?, htake]
  simp [hn, digitsValue]

theorem digits?_pad (hw : 0 < width) (hn : n < 10 ^ width) (rest : List Char) :
    digits? width (pad width n ++ rest) = some (n, rest) := by
  rw [digits?_append (fun _ => isDigit_of_mem_pad) (pad_ne_nil width n) (.inl (length_pad hw hn)),
    digitsValue_pad]

theorem isBlank_of_isDigit {c : Char} (h : c.isDigit = true) : Text.isBlank c = false := by
  simp only [Char.isDigit, Bool.and_eq_true, decide_eq_true_eq] at h
  simp only [Text.isBlank]
  have h0 : 48 ≤ c.toNat := h.1
  have h9 : c.toNat ≤ 57 := h.2
  simp
  omega

theorem trimLeft_cons {c : Char} (h : Text.isBlank c = false) (cs : List Char) :
    Text.trimLeft (c :: cs) = c :: cs :=
  List.dropWhile_cons_of_neg (by simp [h])

theorem exists_pad_eq_cons (width n : Nat) :
    ∃ c cs, pad width n = c :: cs ∧ c.isDigit = true := by
  obtain ⟨c, cs, h⟩ := List.exists_cons_of_ne_nil (pad_ne_nil width n)
  exact ⟨c, cs, h, isDigit_of_mem_pad (h ▸ List.mem_cons_self)⟩

theorem trimLeft_pad (width n : Nat) (rest : List Char) :
    Text.trimLeft (pad width n ++ rest) = pad width n ++ rest := by
  obtain ⟨c, cs, h, hc⟩ := exists_pad_eq_cons width n
  rw [h, List.cons_append, trimLeft_cons (isBlank_of_isDigit hc)]

theorem field?_pad (hn : n < 100) (rest : List Char) :
    field? 2 (pad 2 n ++ rest) = some (n, rest) := by
  rw [field?, trimLeft_pad, digits?_pad (by decide) hn]

theorem year?_yearChars (year : Int) (rest : List Char) :
    year? (yearChars year ++ '-' :: rest) = some (year, '-' :: rest) := by
  by_cases hy : 0 ≤ year ∧ year ≤ 9999
  · have hchars : yearChars year = pad 4 year.toNat := if_pos (by simpa using hy)
    have hcast : (year.toNat : Int) = year := by omega
    obtain ⟨c, cs, h, hc⟩ := exists_pad_eq_cons 4 year.toNat
    have hunsigned : year? (pad 4 year.toNat ++ '-' :: rest) =
        (digits? 4 (pad 4 year.toNat ++ '-' :: rest)).map fun p => ((p.1 : Int), p.2) := by
      rw [year?, trimLeft_pad, h]
      split
      next heq =>
        cases heq
        cases hc
      next heq =>
        cases heq
        cases hc
      next => rfl
    rw [hchars, hunsigned, digits?_pad (by decide) (by omega), Option.map_some, hcast]
  · have hchars : yearChars year = (if year < 0 then '-' else '+') :: pad 4 year.natAbs :=
      if_neg (by simpa using hy)
    have hdigits : digits? (pad 4 year.natAbs ++ '-' :: rest).length
        (pad 4 year.natAbs ++ '-' :: rest) = some (year.natAbs, '-' :: rest) := by
      rw [digits?_append (fun _ => isDigit_of_mem_pad) (pad_ne_nil _ _), digitsValue_pad]
      exact .inr ⟨by simp, fun c hc => by cases hc; rfl⟩
    rw [hchars]
    by_cases hneg : year < 0
    · have hcast : -(year.natAbs : Int) = year := by omega
      rw [if_pos hneg, List.cons_append, year?, trimLeft_cons rfl]
      simp only [hdigits, Option.map_some, hcast]
    · have hcast : (year.natAbs : Int) = year := by omega
      rw [if_neg hneg, List.cons_append, year?, trimLeft_cons rfl]
      simp only [hdigits, Option.map_some, hcast]

theorem fraction?_pad (hw : 0 < width) (h9 : width ≤ 9) (hn : n < 10 ^ width) :
    fraction? ('.' :: (pad width n ++ ['Z'])) = some (n * 10 ^ (9 - width), ['Z']) := by
  have hdigits : (pad width n ++ ['Z']).takeWhile Char.isDigit = pad width n :=
    takeWhile_isDigit (fun _ => isDigit_of_mem_pad) _ fun c hc => by cases hc; rfl
  have hnine : (pad width n).take 9 = pad width n :=
    List.take_of_length_le (by rw [length_pad hw hn]; exact h9)
  have hvalue := digitsValue_pad width n
  rw [digitsValue] at hvalue
  simp only [fraction?, hdigits, hnine, hvalue, length_pad hw hn, List.isEmpty_eq_false_iff.2
    (pad_ne_nil width n), Bool.false_eq_true, if_false, List.drop_left' (length_pad hw hn)]
  rfl

theorem fraction?_fractionChars (hn : n < 1000000000) :
    fraction? (fractionChars n ++ ['Z']) = some (n, ['Z']) := by
  simp only [fractionChars]
  split
  next h =>
    rw [h]
    rfl
  next =>
    split
    next h =>
      rw [List.cons_append, fraction?_pad (by decide) (by decide) (by omega)]
      simp only [Option.some.injEq, Prod.mk.injEq, and_true]
      omega
    next =>
      split
      next h =>
        rw [List.cons_append, fraction?_pad (by decide) (by decide) (by omega)]
        simp only [Option.some.injEq, Prod.mk.injEq, and_true]
        omega
      next =>
        rw [List.cons_append, fraction?_pad (by decide) (by decide) (by omega)]
        simp only [Option.some.injEq, Prod.mk.injEq, and_true]
        omega

theorem mark?_self (mark : Char) (h : Text.isBlank mark = false) (cs : List Char) :
    mark? mark (mark :: cs) = some cs := by
  rw [mark?, trimLeft_cons h]
  exact if_pos rfl

/-- The moment of a date, a time by the clock and an offset, if it can be held. -/
def ofParts? (year : Int) (month day hour minute second nanos : Nat) (offset : Int) :
    Option Timestamp :=
  if month < 1 || 12 < month || day < 1 || daysIn year month < day then none
  else if 23 < hour || 59 < minute || 60 < second then none
  else if offset ≤ -86400 || 86400 ≤ offset then none
  else if year < minYear || maxYear < year then none
  else
    let leap := second = 60
    let clock : Int := hour * 3600 + minute * 60 + (if leap then 59 else second)
    let seconds := daysOf year month day * 86400 + clock - offset
    let actual := (dateOf (seconds / 86400)).1
    if actual < minYear || maxYear < actual then none
    else some ⟨seconds, if leap then nanos + 1000000000 else nanos⟩

theorem parse?_eq (s : String) : parse? s = (do
    let (year, cs) ← year? s.toList
    let (month, cs) ← field? 2 (← mark? '-' cs)
    let (day, cs) ← field? 2 (← mark? '-' cs)
    let cs ← match cs with
      | c :: rest => if c = 'T' || c = 't' || c = ' ' then some rest else none
      | [] => none
    let (hour, cs) ← field? 2 cs
    let (minute, cs) ← field? 2 (← mark? ':' cs)
    let (second, cs) ← field? 2 (← mark? ':' cs)
    let (nanos, cs) ← fraction? cs
    let (offset, cs) ← offset? (Text.trimLeft cs)
    if !(Text.trimLeft cs).isEmpty then none
    else ofParts? year month day hour minute second nanos offset) :=
  rfl

/-- The moments that can be read: they are held, and only a full minute has a leap second. -/
structure Held (t : Timestamp) : Prop where
  year : minYear ≤ (dateOf (t.seconds / 86400)).1 ∧ (dateOf (t.seconds / 86400)).1 ≤ maxYear
  nanos : t.nanos < 2000000000
  leap : 1000000000 ≤ t.nanos → t.seconds % 60 = 59

theorem ofParts?_of_held {t : Timestamp} (h : t.Held) {days : Int} (clock : Nat)
    (hdays : days = t.seconds / 86400) (hclock : t.seconds = days * 86400 + clock) :
    ofParts? (dateOf days).1 (dateOf days).2.1 (dateOf days).2.2 (clock / 3600) (clock / 60 % 60)
      (clock % 60 + t.nanos / 1000000000) (t.nanos % 1000000000) 0 = some t := by
  obtain ⟨hmonth, hday, hdate⟩ := date_of_days days
  have hyear := h.year
  have hnanos := h.nanos
  have hleap := h.leap
  have hsecond : (if clock % 60 + t.nanos / 1000000000 = 60 then 59
      else clock % 60 + t.nanos / 1000000000) = clock % 60 := by
    split <;> omega
  have hseconds : days * 86400 + ((clock / 3600 : Nat) * 3600 + (clock / 60 % 60 : Nat) * 60
      + (clock % 60 : Nat)) - 0 = t.seconds := by omega
  have hsum : (if clock % 60 + t.nanos / 1000000000 = 60 then t.nanos % 1000000000 + 1000000000
      else t.nanos % 1000000000) = t.nanos := by
    split <;> omega
  rw [← hdays] at hyear
  rw [ofParts?, if_neg (by simp; omega), if_neg (by simp; omega), if_neg (by decide),
    if_neg (by simp; omega)]
  simp only [hsecond, hsum, hdate, hseconds, ← hdays]
  rw [if_neg (by simp; omega)]

theorem some_bind {α β : Type} (a : α) (f : α → Option β) : (some a >>= f) = f a := rfl

theorem Held.parse?_text {t : Timestamp} (h : t.Held) : parse? t.text = some t := by
  obtain ⟨days, hdays⟩ : ∃ days, days = t.seconds / 86400 := ⟨_, rfl⟩
  obtain ⟨clock, hclock⟩ : ∃ clock, clock = (t.seconds - days * 86400).toNat := ⟨_, rfl⟩
  obtain ⟨hmonth, hday, -⟩ := date_of_days days
  have hin : daysIn (dateOf days).1 (dateOf days).2.1 ≤ 31 := by
    simp only [daysIn]
    split <;> split <;> omega
  have hnanos := h.nanos
  have hchars : t.text.toList = yearChars (dateOf days).1 ++ '-' :: (pad 2 (dateOf days).2.1 ++
      '-' :: (pad 2 (dateOf days).2.2 ++ 'T' :: (pad 2 (clock / 3600) ++
      ':' :: (pad 2 (clock / 60 % 60) ++ ':' :: (pad 2 (clock % 60 + t.nanos / 1000000000) ++
      (fractionChars (t.nanos % 1000000000) ++ ['Z'])))))) := by
    rw [text, String.toList_ofList, chars, ← hdays, ← hclock]
  have hparts := ofParts?_of_held h clock hdays (by omega)
  rw [parse?_eq, hchars, year?_yearChars]
  simp only [some_bind, mark?_self '-' rfl, mark?_self ':' rfl,
    field?_pad (show (dateOf days).2.1 < 100 by omega),
    field?_pad (show (dateOf days).2.2 < 100 by omega),
    field?_pad (show clock / 3600 < 100 by omega),
    field?_pad (show clock / 60 % 60 < 100 by omega),
    field?_pad (show clock % 60 + t.nanos / 1000000000 < 100 by omega),
    fraction?_fractionChars (show t.nanos % 1000000000 < 1000000000 by omega)]
  exact hparts

theorem held_of_ofParts? {year offset : Int} {month day hour minute second nanos : Nat}
    {t : Timestamp} (ho : offset % 60 = 0) (hn : nanos < 1000000000)
    (h : ofParts? year month day hour minute second nanos offset = some t) : t.Held := by
  simp only [ofParts?, Option.ite_none_left_eq_some] at h
  obtain ⟨-, -, -, -, hactual, h⟩ := h
  cases h
  simp only [Bool.or_eq_true, decide_eq_true_eq, not_or, Int.not_lt] at hactual
  refine ⟨hactual, ?_, ?_⟩
  · dsimp only
    split <;> omega
  · dsimp only
    split <;> omega

theorem sub_zero_le_nine {c : Char} (h : c.isDigit = true) : c.toNat - '0'.toNat ≤ 9 := by
  simp only [Char.isDigit, Bool.and_eq_true, decide_eq_true_eq] at h
  have h9 : c.toNat ≤ 57 := h.2
  have h0 : '0'.toNat = 48 := rfl
  omega

theorem foldl_digits_lt {ds : List Char} (h : ∀ c ∈ ds, c.isDigit = true) (n : Nat) :
    ds.foldl (fun n c => n * 10 + (c.toNat - '0'.toNat)) n < (n + 1) * 10 ^ ds.length := by
  induction ds generalizing n with
  | nil => simp
  | cons c ds ih =>
      obtain ⟨hc, hds⟩ := List.forall_mem_cons.1 h
      have hd := sub_zero_le_nine hc
      calc ds.foldl _ (n * 10 + (c.toNat - '0'.toNat))
          < (n * 10 + (c.toNat - '0'.toNat) + 1) * 10 ^ ds.length := ih hds _
        _ ≤ ((n + 1) * 10) * 10 ^ ds.length := Nat.mul_le_mul_right _ (by omega)
        _ = (n + 1) * 10 ^ (c :: ds).length := by
          rw [List.length_cons, Nat.pow_succ, Nat.mul_assoc, Nat.mul_comm 10]

theorem lt_of_fraction? {cs rest : List Char} {n : Nat} (h : fraction? cs = some (n, rest)) :
    n < 1000000000 := by
  simp only [fraction?] at h
  split at h
  next rest =>
    rw [Option.ite_none_left_eq_some] at h
    cases h.2
    obtain ⟨ds, hds⟩ : ∃ ds, ds = (rest.takeWhile Char.isDigit).take 9 := ⟨_, rfl⟩
    have hdigits : ∀ c ∈ ds, c.isDigit = true := fun c hc =>
      List.all_eq_true.1 List.all_takeWhile c (List.mem_of_mem_take (hds ▸ hc))
    have hlength : ds.length ≤ 9 := by
      rw [hds, List.length_take]
      omega
    have hlt := foldl_digits_lt hdigits 0
    rw [Nat.zero_add, Nat.one_mul] at hlt
    rw [← hds]
    calc _ < 10 ^ ds.length * 10 ^ (9 - ds.length) :=
          Nat.mul_lt_mul_of_pos_right hlt (Nat.pow_pos (by decide))
      _ = 1000000000 := by rw [← Nat.pow_add, Nat.add_sub_cancel' hlength]
  next =>
    cases h
    decide

theorem mod_of_offset? {cs rest : List Char} {offset : Int}
    (h : offset? cs = some (offset, rest)) : offset % 60 = 0 := by
  rw [offset?.eq_def] at h
  dsimp only at h
  split at h
  next =>
    cases h
    rfl
  next =>
    cases h
    rfl
  next =>
    split at h
    next =>
      cases h
      rfl
    next =>
      split at h
      next =>
        obtain ⟨_, -, h⟩ := Option.bind_eq_some_iff.1 h
        obtain ⟨_, -, h⟩ := Option.bind_eq_some_iff.1 h
        split at h
        next => cases h
        next =>
          cases h
          split <;> omega
      next => cases h
  next => cases h

theorem held_of_parse? {s : String} {t : Timestamp} (h : parse? s = some t) : t.Held := by
  rw [parse?_eq] at h
  obtain ⟨_, -, h⟩ := Option.bind_eq_some_iff.1 h
  obtain ⟨_, -, h⟩ := Option.bind_eq_some_iff.1 h
  obtain ⟨_, -, h⟩ := Option.bind_eq_some_iff.1 h
  obtain ⟨_, -, h⟩ := Option.bind_eq_some_iff.1 h
  obtain ⟨_, -, h⟩ := Option.bind_eq_some_iff.1 h
  dsimp only at h
  split at h
  next =>
    split at h
    next =>
      obtain ⟨_, -, h⟩ := Option.bind_eq_some_iff.1 h
      obtain ⟨_, -, h⟩ := Option.bind_eq_some_iff.1 h
      obtain ⟨_, -, h⟩ := Option.bind_eq_some_iff.1 h
      obtain ⟨_, -, h⟩ := Option.bind_eq_some_iff.1 h
      obtain ⟨_, -, h⟩ := Option.bind_eq_some_iff.1 h
      obtain ⟨_, -, h⟩ := Option.bind_eq_some_iff.1 h
      obtain ⟨_, hnanos, h⟩ := Option.bind_eq_some_iff.1 h
      obtain ⟨_, hoffset, h⟩ := Option.bind_eq_some_iff.1 h
      rw [Option.ite_none_left_eq_some] at h
      exact held_of_ofParts? (mod_of_offset? hoffset) (lt_of_fraction? hnanos) h.2
    next => cases h
  next => cases h

/-- What was read from any text is read again from the text that is written of it. -/
theorem parse?_text {s : String} {t : Timestamp} (h : parse? s = some t) :
    parse? t.text = some t :=
  (held_of_parse? h).parse?_text

end Experiment.Timestamp
