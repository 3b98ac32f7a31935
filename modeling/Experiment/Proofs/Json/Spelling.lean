import Experiment.Json.Reader
import Experiment.Json.Writer

/-!
# Texts and their tokens

A text spells tokens if it is cut into them whatever follows it, as long as what follows cannot go
on a number. Spelling is closed under joining texts, and blanks may stand anywhere between tokens.
The text of a string spells its token: one escape is read back in one step.
-/

namespace Experiment.Json.Token

/-- Nothing that could go on a number. -/
def Ends (cs : List Char) : Prop :=
  ∀ c ∈ cs.head?, digit? c = none ∧ c ≠ '.' ∧ c ≠ 'e' ∧ c ≠ 'E'

theorem ends_nil : Ends [] := fun _ h => by cases h

theorem Ends.append {a b : List Char} (ha : Ends a) (hb : Ends b) : Ends (a ++ b) := by
  cases a with
  | nil => exact hb
  | cons c a => exact ha

/-- However much fuel there is, the text is cut into these tokens. -/
def Cuts (cs : List Char) (ts : List Token) : Prop :=
  ∀ fuel, cs.length ≤ fuel → scanFuel fuel cs = some ts

theorem Cuts.scan {cs : List Char} {ts : List Token} (h : Cuts cs ts) : scan cs = some ts :=
  h _ (Nat.le_refl _)

theorem cuts_nil : Cuts [] [] := fun fuel _ => by cases fuel <;> rfl

theorem Cuts.blank {c : Char} {cs : List Char} {ts : List Token} (hc : isBlank c = true)
    (h : Cuts cs ts) : Cuts (c :: cs) ts := by
  intro fuel hf
  cases fuel with
  | zero => cases hf
  | succ fuel => rw [scanFuel, if_pos hc, h fuel (Nat.le_of_succ_le_succ hf)]

theorem Cuts.blanks {blank cs : List Char} {ts : List Token} (hb : ∀ c ∈ blank, isBlank c = true)
    (h : Cuts cs ts) : Cuts (blank ++ cs) ts := by
  induction blank with
  | nil => exact h
  | cons c blank ih =>
      exact .blank (hb c List.mem_cons_self) (ih fun d hd => hb d (List.mem_cons_of_mem _ hd))

theorem Cuts.token {c : Char} {cs rest : List Char} {t : Token} {ts : List Token}
    (hc : isBlank c = false) (ht : first? c cs = some (t, rest)) (hl : rest.length ≤ cs.length)
    (h : Cuts rest ts) : Cuts (c :: cs) (t :: ts) := by
  intro fuel hf
  cases fuel with
  | zero => cases hf
  | succ fuel =>
      have hr := h fuel (Nat.le_trans hl (Nat.le_of_succ_le_succ hf))
      rw [scanFuel, if_neg (by simp [hc]), ht]
      simp [hr]

/-- A text is cut into these tokens and whatever comes of the rest. -/
def Spells (cs : List Char) (ts : List Token) : Prop :=
  ∀ rest ts', Ends rest → Cuts rest ts' → Cuts (cs ++ rest) (ts ++ ts')

theorem Spells.scan {cs : List Char} {ts : List Token} (h : Spells cs ts) : scan cs = some ts := by
  have h := h [] [] ends_nil cuts_nil
  rw [List.append_nil, List.append_nil] at h
  exact h.scan

theorem spells_nil : Spells [] [] := fun _ _ _ h => h

theorem Spells.append {a b : List Char} {s t : List Token} (ha : Spells a s) (hb : Spells b t)
    (he : Ends b) : Spells (a ++ b) (s ++ t) := by
  intro rest ts hr hc
  rw [List.append_assoc, List.append_assoc]
  exact ha _ _ (he.append hr) (hb _ _ hr hc)

theorem Spells.mark {c : Char} {cs : List Char} {t : Token} {ts : List Token}
    (hc : isBlank c = false) (ht : ∀ cs, first? c cs = some (t, cs)) (h : Spells cs ts) :
    Spells (c :: cs) (t :: ts) := fun rest _ hr hcut =>
  .token hc (ht (cs ++ rest)) (Nat.le_refl _) (h _ _ hr hcut)

theorem Spells.blanks {blank cs : List Char} {ts : List Token}
    (hb : ∀ c ∈ blank, isBlank c = true) (h : Spells cs ts) : Spells (blank ++ cs) ts := by
  intro rest ts' hr hc
  rw [List.append_assoc]
  exact .blanks hb (h _ _ hr hc)

theorem ends_cons {c : Char} (cs : List Char)
    (hc : digit? c = none ∧ c ≠ '.' ∧ c ≠ 'e' ∧ c ≠ 'E') : Ends (c :: cs) := by
  rintro d ⟨⟩
  exact hc

theorem hex?_hexDigit : ∀ d, d < 16 → hex? (hexDigit d) = some d := by
  decide

theorem hexFour?_control {c : Char} (h : c.toNat < 0x20) (cs : List Char) :
    hexFour? ('0' :: '0' :: hexDigit (c.toNat / 16) :: hexDigit (c.toNat % 16) :: cs) =
      some (c.toNat, cs) := by
  have h0 : hex? '0' = some 0 := rfl
  have hhigh := hex?_hexDigit (c.toNat / 16) (by omega)
  have hlow := hex?_hexDigit (c.toNat % 16) (by omega)
  have hsum : c.toNat / 16 * 16 + c.toNat % 16 = c.toNat := by omega
  simp [hexFour?, h0, hhigh, hlow, hsum]

theorem scanString_escapeChar (c : Char) (fuel : Nat) (rest read : List Char) :
    scanString (fuel + 1) (escapeChar c ++ rest) true read =
      scanString fuel rest true (c :: read) := by
  rw [escapeChar]
  split
  · subst c; rfl
  split
  · subst c; rfl
  split
  · subst c; rfl
  split
  · subst c; rfl
  split
  · subst c; rfl
  split
  · subst c; rfl
  split
  · subst c; rfl
  split
  next hcontrol =>
    have hlow : ¬(0xDC00 ≤ c.toNat && c.toNat ≤ 0xDFFF) = true := by simp; omega
    have hhigh : ¬(0xD800 ≤ c.toNat && c.toNat ≤ 0xDBFF) = true := by simp; omega
    simp only [List.cons_append, List.nil_append]
    rw [scanString.eq_def]
    simp [hexFour?_control hcontrol, hlow, hhigh]
  next hquote hslash _ _ _ _ _ hcontrol =>
    cases rest <;>
      simp only [List.singleton_append, scanString, if_neg hquote, if_neg hslash, if_neg hcontrol]

theorem scanString_escaped (cs : List Char) {fuel : Nat} (hf : cs.length < fuel)
    (rest read : List Char) :
    scanString fuel (cs.flatMap escapeChar ++ '"' :: rest) true read =
      some (some (String.ofList (read.reverse ++ cs)), rest) := by
  induction cs generalizing fuel read with
  | nil =>
      cases fuel with
      | zero => cases hf
      | succ fuel => simp [scanString]
  | cons c cs ih =>
      cases fuel with
      | zero => cases hf
      | succ fuel =>
          rw [List.flatMap_cons, List.append_assoc, scanString_escapeChar,
            ih (Nat.lt_of_succ_lt_succ hf), List.reverse_cons, List.append_assoc]
          rfl

theorem length_le_flatMap_escapeChar (cs : List Char) :
    cs.length ≤ (cs.flatMap escapeChar).length := by
  have hone : ∀ c, 1 ≤ (escapeChar c).length := by
    intro c
    unfold escapeChar
    repeat' split
    all_goals exact Nat.le_of_ble_eq_true rfl
  induction cs with
  | nil => exact Nat.le_refl _
  | cons c cs ih =>
      rw [List.flatMap_cons, List.length_append, List.length_cons, Nat.add_comm]
      exact Nat.add_le_add (hone c) ih

theorem spells_stringChars (s : String) : Spells (stringChars s) [.string s] := by
  intro rest ts _ hc
  have hlength := length_le_flatMap_escapeChar s.toList
  have hscan : first? '"' (s.toList.flatMap escapeChar ++ '"' :: rest) =
      some (.string s, rest) := by
    have hfuel : s.toList.length < (s.toList.flatMap escapeChar ++ '"' :: rest).length + 1 := by
      rw [List.length_append]
      omega
    rw [first?, scanString_escaped _ hfuel]
    simp
  rw [stringChars, List.cons_append, List.append_assoc]
  refine .token rfl hscan ?_ hc
  rw [List.length_append, List.singleton_append, List.length_cons]
  omega

end Experiment.Json.Token
