import Experiment.Proofs.Json.Spelling

/-!
# The texts of numbers

A number is found where its text stands, whatever follows that is no part of a number. An integer of
64 bits is always read back; of a double this cannot be said in general, since it may be written in
digits that are read as another one, and is what `Number.ReadsBack` says.
-/

namespace Experiment

/-- Read back from its own text. -/
def Number.ReadsBack (n : Number) : Prop :=
  Json.parse? (Json.compact (.number n)) = some (.number n)

namespace Json.Token

theorem spanDigits_append {cs rest r : List Char} {ds : List Nat} (h : spanDigits cs = (ds, r))
    (he : Ends rest) : spanDigits (cs ++ rest) = (ds, r ++ rest) := by
  induction cs generalizing ds with
  | nil =>
      cases h
      cases rest with
      | nil => rfl
      | cons c rest => rw [List.nil_append, spanDigits, (he c rfl).1]
  | cons c cs ih =>
      rw [spanDigits] at h
      rw [List.cons_append, spanDigits]
      cases hd : digit? c with
      | none =>
          rw [hd] at h
          cases h
          rfl
      | some d =>
          rw [hd] at h
          cases h
          rw [ih rfl]

theorem scanFraction_append {cs rest r : List Char} {f : Option (List Nat)}
    (h : scanFraction cs = some (f, r)) (he : Ends rest) :
    scanFraction (cs ++ rest) = some (f, r ++ rest) := by
  unfold scanFraction at h
  split at h
  next more =>
    cases hs : spanDigits more with
    | mk ds r' =>
        have happ := spanDigits_append hs he
        rw [hs] at h
        cases ds with
        | nil => cases h
        | cons d ds =>
            cases h
            rw [List.cons_append, scanFraction, happ]
  next hpoint =>
    cases h
    unfold scanFraction
    split
    next more heq =>
      cases cs with
      | nil => exact absurd rfl (he '.' (by rw [List.nil_append] at heq; rw [heq]; rfl)).2.1
      | cons c cs =>
          cases heq
          exact absurd rfl (hpoint cs)
    next => rfl

theorem exponentDigits_append {negative : Bool} {cs rest r : List Char}
    {e : Option (Bool × List Nat)}
    (h : (match spanDigits cs with
      | ([], _) => none
      | (ds, rest) => some (some (negative, ds), rest)) = some (e, r)) (he : Ends rest) :
    (match spanDigits (cs ++ rest) with
      | ([], _) => none
      | (ds, rest) => some (some (negative, ds), rest)) = some (e, r ++ rest) := by
  cases hs : spanDigits cs with
  | mk ds r' =>
      rw [hs] at h
      rw [spanDigits_append hs he]
      cases ds with
      | nil => cases h
      | cons d ds =>
          cases h
          rfl

theorem scanExponent_append {cs rest r : List Char} {e : Option (Bool × List Nat)}
    (h : scanExponent cs = some (e, r)) (he : Ends rest) :
    scanExponent (cs ++ rest) = some (e, r ++ rest) := by
  cases cs with
  | nil =>
      cases h
      cases rest with
      | nil => rfl
      | cons c rest => simp [scanExponent, (he c rfl).2.2]
  | cons c cs =>
      by_cases hmark : (c = 'e' || c = 'E') = true
      · -- an exponent has digits, so its sign is looked for in the same place
        cases cs with
        | nil => simp [scanExponent, hmark, spanDigits] at h
        | cons sign cs =>
            by_cases hminus : sign = '-'
            · subst hminus
              rw [scanExponent.eq_1, if_pos hmark] at h
              rw [List.cons_append, List.cons_append, scanExponent.eq_1, if_pos hmark]
              exact exponentDigits_append h he
            by_cases hplus : sign = '+'
            · subst hplus
              rw [scanExponent.eq_2, if_pos hmark] at h
              rw [List.cons_append, List.cons_append, scanExponent.eq_2, if_pos hmark]
              exact exponentDigits_append h he
            · have hbare : ∀ more, scanExponent (c :: sign :: more) = _ := fun more =>
                scanExponent.eq_3 c (sign :: more) (fun _ heq => hminus (List.cons.inj heq).1)
                  (fun _ heq => hplus (List.cons.inj heq).1)
              rw [hbare, if_pos hmark] at h
              rw [List.cons_append, List.cons_append, hbare, if_pos hmark]
              exact @exponentDigits_append false (sign :: cs) _ _ _ h he
      · have hnone : ∀ more, scanExponent (c :: more) = some (none, c :: more) := by
          intro more
          unfold scanExponent
          exact if_neg hmark
        rw [hnone] at h
        cases h
        exact hnone _

def scanWhole (cs : List Char) : Option (List Nat × List Char) :=
  match spanDigits cs with
  | ([], _) => none
  | (0 :: _ :: _, _) => none
  | found => some found

/-- A lexeme after its sign. -/
def scanUnsigned (negative : Bool) (cs : List Char) : Option (Lexeme × List Char) := do
  let (whole, cs) ← scanWhole cs
  let (fraction, cs) ← scanFraction cs
  let (exponent, cs) ← scanExponent cs
  return (⟨negative, whole, fraction, exponent⟩, cs)

theorem scanLexeme_minus (cs : List Char) : scanLexeme ('-' :: cs) = scanUnsigned true cs := by
  rw [scanLexeme.eq_1, scanUnsigned, scanWhole]
  split <;> simp_all

theorem scanLexeme_of_ne {c : Char} (h : c ≠ '-') (cs : List Char) :
    scanLexeme (c :: cs) = scanUnsigned false (c :: cs) := by
  rw [scanLexeme.eq_2 _ fun _ heq => h (List.cons.inj heq).1, scanUnsigned, scanWhole]
  split <;> simp_all

theorem scanWhole_append {cs rest r : List Char} {ds : List Nat} (h : scanWhole cs = some (ds, r))
    (he : Ends rest) : scanWhole (cs ++ rest) = some (ds, r ++ rest) := by
  unfold scanWhole at h ⊢
  cases hs : spanDigits cs with
  | mk ds r' =>
      rw [hs] at h
      rw [spanDigits_append hs he]
      split at h
      next => cases h
      next => cases h
      next =>
        cases h
        split <;> simp_all

theorem scanUnsigned_append {negative : Bool} {cs rest r : List Char} {l : Lexeme}
    (h : scanUnsigned negative cs = some (l, r)) (he : Ends rest) :
    scanUnsigned negative (cs ++ rest) = some (l, r ++ rest) := by
  obtain ⟨⟨whole, cs₁⟩, hw, h⟩ := Option.bind_eq_some_iff.1 h
  obtain ⟨⟨fraction, cs₂⟩, hf, h⟩ := Option.bind_eq_some_iff.1 h
  obtain ⟨⟨exponent, cs₃⟩, hx, h⟩ := Option.bind_eq_some_iff.1 h
  cases h
  simp [scanUnsigned, scanWhole_append hw he, scanFraction_append hf he, scanExponent_append hx he]

theorem scanLexeme_append {cs rest r : List Char} {l : Lexeme} (h : scanLexeme cs = some (l, r))
    (he : Ends rest) : scanLexeme (cs ++ rest) = some (l, r ++ rest) := by
  cases cs with
  | nil => cases h
  | cons c cs =>
      by_cases hc : c = '-'
      · subst hc
        rw [scanLexeme_minus] at h
        rw [List.cons_append, scanLexeme_minus, scanUnsigned_append h he]
      · rw [scanLexeme_of_ne hc] at h
        rw [List.cons_append, scanLexeme_of_ne hc]
        exact scanUnsigned_append h he

theorem starts_of_scanLexeme {c : Char} {cs r : List Char} {l : Lexeme}
    (h : scanLexeme (c :: cs) = some (l, r)) : c = '-' ∨ digit? c ≠ none := by
  refine Decidable.or_iff_not_imp_left.2 fun hc hd => ?_
  rw [scanLexeme_of_ne hc] at h
  simp [scanUnsigned, scanWhole, spanDigits, hd] at h

def ofLexeme (l : Lexeme) : Token :=
  match l.toNumber? with
  | some n => .number n
  | none => .unreadableNumber

theorem first?_of_scanLexeme {c : Char} {cs r : List Char} {l : Lexeme}
    (h : scanLexeme (c :: cs) = some (l, r)) : first? c cs = some (ofLexeme l, r) := by
  have hc := starts_of_scanLexeme h
  unfold first?
  split
  case h_11 => rw [h]; rfl
  all_goals exact absurd hc (by decide)

theorem isBlank_of_scanLexeme {c : Char} {cs r : List Char} {l : Lexeme}
    (h : scanLexeme (c :: cs) = some (l, r)) : isBlank c = false := by
  have hc := starts_of_scanLexeme h
  refine Bool.eq_false_iff.2 fun hb => ?_
  simp only [isBlank, Bool.or_eq_true, decide_eq_true_eq] at hb
  obtain ((rfl | rfl) | rfl) | rfl := hb <;> exact absurd hc (by decide)

/-- Found where its text stands, with nothing but blanks after it. -/
def Lexes (n : Number) : Prop :=
  ∃ c cs l r, numberChars n = c :: cs ∧ scanLexeme (c :: cs) = some (l, r) ∧
    l.toNumber? = some n ∧ (∀ d ∈ r, isBlank d = true) ∧ r.length ≤ cs.length

theorem spells_numberChars {n : Number} (h : Lexes n) : Spells (numberChars n) [.number n] := by
  obtain ⟨c, cs, l, r, hn, hl, hv, hr, hlength⟩ := h
  intro rest ts he hc
  have happ := scanLexeme_append hl he
  have htoken := first?_of_scanLexeme happ
  rw [ofLexeme, hv] at htoken
  rw [hn]
  refine .token (isBlank_of_scanLexeme happ) htoken ?_ (.blanks hr hc)
  simpa using hlength

theorem scanFuel_eq_nil {fuel : Nat} {cs : List Char} (h : scanFuel fuel cs = some []) :
    (∀ c ∈ cs, isBlank c = true) ∧ cs.length ≤ fuel := by
  induction fuel generalizing cs with
  | zero =>
      cases cs with
      | nil => simp
      | cons c cs => cases h
  | succ fuel ih =>
      cases cs with
      | nil => simp
      | cons c cs =>
          rw [scanFuel] at h
          split at h
          next hc =>
            obtain ⟨hblank, hlength⟩ := ih h
            exact ⟨List.forall_mem_cons.2 ⟨hc, hblank⟩, Nat.succ_le_succ hlength⟩
          next =>
            obtain ⟨⟨t, rest⟩, -, h⟩ := Option.bind_eq_some_iff.1 h
            obtain ⟨ts, -, h⟩ := Option.bind_eq_some_iff.1 h
            cases h

theorem lexeme_of_first? {c : Char} {cs r : List Char} {n : Number}
    (h : first? c cs = some (.number n, r)) :
    ∃ l, scanLexeme (c :: cs) = some (l, r) ∧ l.toNumber? = some n := by
  unfold first? at h
  split at h
  case h_11 =>
    obtain ⟨⟨l, r'⟩, hl, h⟩ := Option.map_eq_some_iff.1 h
    refine ⟨l, ?_⟩
    cases hv : l.toNumber? <;> simp_all
  case h_10 =>
    obtain ⟨⟨s, r'⟩, -, h⟩ := Option.map_eq_some_iff.1 h
    cases s <;> cases h
  all_goals simp at h

theorem not_isBlank_digit {c : Char} (h : c.isDigit = true) : isBlank c = false := by
  refine Bool.eq_false_iff.2 fun hb => ?_
  simp only [isBlank, Bool.or_eq_true, decide_eq_true_eq] at hb
  obtain ((rfl | rfl) | rfl) | rfl := hb <;> exact absurd h (by decide)

theorem forall_mem_numberChars {p : Char → Prop} (hdigit : ∀ c, c.isDigit = true → p c)
    (hmark : ∀ c ∈ ['-', '+', '.', 'e'], p c) (n : Number) : ∀ c ∈ numberChars n, p c := by
  intro c h
  have hdigits : ∀ k, ∀ d ∈ Decimal.digitChars k, p d := fun _ d hd =>
    hdigit d (Nat.isDigit_of_mem_toDigits (by decide) (by decide) hd)
  have hzero : p '0' := hdigit '0' rfl
  cases n with
  | int i =>
      simp only [numberChars, intChars] at h
      split at h
      next =>
        obtain rfl | h := List.mem_cons.1 h
        · exact hmark _ List.mem_cons_self
        · exact hdigits _ c h
      next => exact hdigits _ c h
  | float bits =>
      have htake : ∀ k m, ∀ d ∈ (Decimal.digitChars k).take m, p d := fun k _ d hd =>
        hdigits k d (List.mem_of_mem_take hd)
      have hdrop : ∀ k m, ∀ d ∈ (Decimal.digitChars k).drop m, p d := fun k _ d hd =>
        hdigits k d (List.mem_of_mem_drop hd)
      have hzeros : ∀ k, ∀ d ∈ List.replicate k '0', p d := fun k d hd => by
        rw [List.eq_of_mem_replicate hd]
        exact hzero
      simp only [numberChars, Decimal.Layout.write, Decimal.Layout.chars, floatLayout,
        List.mem_append] at h
      grind

theorem not_isBlank_numberChars {n : Number} {c : Char} (h : c ∈ numberChars n) :
    isBlank c = false :=
  forall_mem_numberChars (fun _ => not_isBlank_digit) (by simp [isBlank]) n c h

theorem toJson?_sequence_ne_number (levels : Nat) (items : List Document) (n : Number) :
    Document.toJson? levels (.sequence items) ≠ some (.number n) := by
  cases levels <;> simp [Document.toJson?]

theorem toJson?_mapping_ne_number (levels : Nat) (entries : List (Option String × Document))
    (n : Number) : Document.toJson? levels (.mapping entries) ≠ some (.number n) := by
  cases levels <;> simp [Document.toJson?]

theorem readValue_openBracket {fuel : Nat} {ts rest : List Token} {d : Document}
    (h : readValue (fuel + 1) (.openBracket :: ts) = some (d, rest)) :
    (ts = .closeBracket :: rest ∧ d = .sequence []) ∨ ∃ x xs ts',
      readValue fuel ts = some (x, ts') ∧ readItems fuel ts' = some (xs, rest) ∧
      d = .sequence (x :: xs) := by
  rw [readValue.eq_def] at h
  dsimp only at h
  split at h
  next =>
    cases h
    exact .inl ⟨rfl, rfl⟩
  next =>
    obtain ⟨⟨x, ts₁⟩, hx, h⟩ := Option.bind_eq_some_iff.1 h
    obtain ⟨⟨xs, ts₂⟩, hxs, h⟩ := Option.bind_eq_some_iff.1 h
    cases h
    exact .inr ⟨x, xs, ts₁, hx, hxs, rfl⟩

theorem readValue_openBrace {fuel : Nat} {ts rest : List Token} {d : Document}
    (h : readValue (fuel + 1) (.openBrace :: ts) = some (d, rest)) :
    (ts = .closeBrace :: rest ∧ d = .mapping []) ∨ ∃ e es ts',
      readEntry fuel ts = some (e, ts') ∧ readEntries fuel ts' = some (es, rest) ∧
      d = .mapping (e :: es) := by
  rw [readValue.eq_def] at h
  dsimp only at h
  split at h
  next =>
    cases h
    exact .inl ⟨rfl, rfl⟩
  next =>
    obtain ⟨⟨e, ts₁⟩, he, h⟩ := Option.bind_eq_some_iff.1 h
    obtain ⟨⟨es, ts₂⟩, hes, h⟩ := Option.bind_eq_some_iff.1 h
    cases h
    exact .inr ⟨e, es, ts₁, he, hes, rfl⟩

theorem readValue_eq_number {fuel levels : Nat} {ts rest : List Token} {d : Document} {n : Number}
    (h : readValue fuel ts = some (d, rest)) (hd : d.toJson? levels = some (.number n)) :
    ts = .number n :: rest := by
  cases fuel with
  | zero => cases h
  | succ fuel =>
      cases ts with
      | nil => cases h
      | cons t ts =>
          cases t with
          | number m =>
              cases h
              cases hd
              rfl
          | openBracket =>
              obtain ⟨-, rfl⟩ | ⟨x, xs, -, -, -, rfl⟩ := readValue_openBracket h
              · exact absurd hd (toJson?_sequence_ne_number _ _ _)
              · exact absurd hd (toJson?_sequence_ne_number _ _ _)
          | openBrace =>
              obtain ⟨-, rfl⟩ | ⟨e, es, -, -, -, rfl⟩ := readValue_openBrace h
              · exact absurd hd (toJson?_mapping_ne_number _ _ _)
              · exact absurd hd (toJson?_mapping_ne_number _ _ _)
          | closeBracket | closeBrace | comma | colon => cases h
          | null | bool _ | string _ | unreadableString | unreadableNumber =>
              cases h
              cases hd

theorem eq_of_document?_eq_number {ts : List Token} {levels : Nat} {d : Document} {n : Number}
    (h : document? ts = some d) (hd : d.toJson? levels = some (.number n)) : ts = [.number n] := by
  unfold document? at h
  split at h
  case h_1 hread =>
    cases h
    exact readValue_eq_number hread hd
  case h_2 => cases h

theorem lexes_of_readsBack {n : Number} (h : n.ReadsBack) : Lexes n := by
  obtain ⟨d, hd, hj⟩ := Option.bind_eq_some_iff.1 h
  obtain ⟨ts, hs, hd⟩ := Option.bind_eq_some_iff.1 hd
  rw [eq_of_document?_eq_number hd hj, compact, chars, String.toList_ofList, Token.scan] at hs
  cases hc : numberChars n with
  | nil => rw [hc] at hs; cases hs
  | cons c cs =>
      have hblank : isBlank c = false := not_isBlank_numberChars (n := n) (by simp [hc])
      rw [hc, List.length_cons, scanFuel, if_neg (by simp [hblank])] at hs
      obtain ⟨⟨t, r⟩, ht, hs⟩ := Option.bind_eq_some_iff.1 hs
      obtain ⟨ts', hr, hs⟩ := Option.bind_eq_some_iff.1 hs
      cases hs
      obtain ⟨l, hl, hv⟩ := lexeme_of_first? ht
      obtain ⟨hrest, hlength⟩ := scanFuel_eq_nil hr
      exact ⟨c, cs, l, r, hc, hl, hv, hrest, hlength⟩

theorem digit?_eq {c : Char} (h : c.isDigit = true) : digit? c = some (c.toNat - '0'.toNat) :=
  if_pos h

theorem spanDigits_eq {cs : List Char} (h : ∀ c ∈ cs, c.isDigit = true) :
    spanDigits cs = (cs.map fun c => c.toNat - '0'.toNat, []) := by
  induction cs with
  | nil => rfl
  | cons c cs ih =>
      rw [spanDigits, digit?_eq (h c List.mem_cons_self),
        ih fun d hd => h d (List.mem_cons_of_mem _ hd)]
      rfl

theorem digitsValue_map (cs : List Char) :
    digitsValue (cs.map fun c => c.toNat - '0'.toNat) = Nat.ofDigitChars 10 cs 0 := by
  rw [digitsValue, Nat.ofDigitChars_eq_foldl, List.foldl_map]
  simp only [Nat.mul_comm]

theorem head_toDigits {n : Nat} (hn : n ≠ 0) : (Nat.toDigits 10 n).head? ≠ some '0' := by
  induction n using Nat.strongRecOn with
  | ind n ih =>
      rw [Nat.toDigits_eq_if (by decide)]
      split
      next => simpa using hn
      next hlt =>
        rw [List.head?_append, Option.or_of_isSome (by simp)]
        exact ih _ (by omega) (by omega)

theorem eq_zero_of_digit {c : Char} (h : c.isDigit = true) (hc : c.toNat - '0'.toNat = 0) :
    c = '0' := by
  have hle : '0'.toNat ≤ c.toNat := by
    have := (Bool.and_eq_true_iff.1 h).1
    exact of_decide_eq_true this
  exact Char.toNat_inj.1 (Nat.le_antisymm (Nat.le_of_sub_eq_zero hc) hle)

/-- No number but zero is written with a zero in front. -/
theorem scanWhole_digitChars (n : Nat) : scanWhole (Decimal.digitChars n) =
    some ((Decimal.digitChars n).map fun c => c.toNat - '0'.toNat, []) := by
  have hdigits : ∀ c ∈ Decimal.digitChars n, c.isDigit = true := fun c hc =>
    Nat.isDigit_of_mem_toDigits (by decide) (by decide) hc
  rw [scanWhole, spanDigits_eq hdigits]
  split
  next heq => simp [Decimal.digitChars] at heq
  next heq =>
    cases hc : Decimal.digitChars n with
    | nil => simp [hc] at heq
    | cons c cs =>
        rw [hc] at heq hdigits
        have hzero : c.toNat - '0'.toNat = 0 := by simp_all
        have hdigit := hdigits c List.mem_cons_self
        have hn : n ≠ 0 := by
          rintro rfl
          cases hc
          simp at heq
        refine absurd ?_ (head_toDigits hn)
        rw [← Decimal.digitChars, hc, List.head?_cons, eq_zero_of_digit hdigit hzero]
  next => rfl

theorem scanUnsigned_digitChars (negative : Bool) (n : Nat) :
    scanUnsigned negative (Decimal.digitChars n) =
      some (⟨negative, (Decimal.digitChars n).map fun c => c.toNat - '0'.toNat, none, none⟩, []) := by
  rw [scanUnsigned, scanWhole_digitChars]
  rfl

theorem digitsValue_digitChars (n : Nat) :
    digitsValue ((Decimal.digitChars n).map fun c => c.toNat - '0'.toNat) = n := by
  rw [digitsValue_map, Decimal.digitChars, Nat.ofDigitChars_ten_toDigits]

/-- The integers that are held exactly are read back exactly. -/
theorem lexes_int {i : Int} (h : Number.fits i = true) : Lexes (.int i) := by
  simp only [Number.fits, Bool.and_eq_true, decide_eq_true_eq] at h
  by_cases hi : i < 0
  · have hchars : numberChars (.int i) = '-' :: Decimal.digitChars i.natAbs := if_pos hi
    refine ⟨_, _, _, _, hchars, (scanLexeme_minus _).trans (scanUnsigned_digitChars _ _), ?_,
      by simp, Nat.zero_le _⟩
    rw [Lexeme.toNumber?, digitsValue_digitChars]
    obtain ⟨m, rfl⟩ : ∃ m : Nat, i = -(m : Int) := ⟨i.natAbs, by omega⟩
    have hbound : m ≠ 0 ∧ m ≤ 0x8000000000000000 := by omega
    simp [hbound]
  · cases hc : Decimal.digitChars i.natAbs with
    | nil => exact absurd hc Nat.toDigits_ne_nil
    | cons c cs =>
        have hchars : numberChars (.int i) = c :: cs := (if_neg hi).trans hc
        have hdigit : c.isDigit = true := Nat.isDigit_of_mem_toDigits (b := 10) (n := i.natAbs)
          (by decide) (by decide) (by rw [← Decimal.digitChars, hc]; exact List.mem_cons_self)
        have hminus : c ≠ '-' := by
          rintro rfl
          cases hdigit
        have hlexeme := scanUnsigned_digitChars false i.natAbs
        have hvalue := digitsValue_digitChars i.natAbs
        rw [hc] at hlexeme hvalue
        refine ⟨c, cs, _, _, hchars, (scanLexeme_of_ne hminus cs).trans hlexeme, ?_, by simp,
          Nat.zero_le _⟩
        have hnat : (i.natAbs : Int) = i := by omega
        have hbound : i.natAbs < 0x10000000000000000 := by omega
        rw [Lexeme.toNumber?, hvalue]
        simp [hnat, hbound]

end Json.Token

end Experiment
