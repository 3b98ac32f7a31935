import Experiment.Proofs.Json.Numeral

/-!
# The texts of values

A value has its tokens, and both ways of writing it spell them: without blanks and indented. From
its tokens it is read as the document that it is.
-/

namespace Experiment.Json

mutual
def tokens : Json → List Token
  | .null => [.null]
  | .bool b => [.bool b]
  | .number n => [.number n]
  | .string s => [.string s]
  | .array [] => [.openBracket, .closeBracket]
  | .array (x :: xs) => .openBracket :: (tokens x ++ itemsTokens xs ++ [.closeBracket])
  | .object [] => [.openBrace, .closeBrace]
  | .object ((k, v) :: fs) =>
    .openBrace :: .string k :: .colon :: (tokens v ++ fieldsTokens fs ++ [.closeBrace])

def itemsTokens : List Json → List Token
  | [] => []
  | x :: xs => .comma :: (tokens x ++ itemsTokens xs)

def fieldsTokens : List (String × Json) → List Token
  | [] => []
  | (k, v) :: fs => .comma :: .string k :: .colon :: (tokens v ++ fieldsTokens fs)
end

mutual
def numbers : Json → List Number
  | .number n => [n]
  | .array items => itemsNumbers items
  | .object fields => fieldsNumbers fields
  | .null => []
  | .bool _ => []
  | .string _ => []

def itemsNumbers : List Json → List Number
  | [] => []
  | x :: xs => numbers x ++ itemsNumbers xs

def fieldsNumbers : List (String × Json) → List Number
  | [] => []
  | (_, v) :: fs => numbers v ++ fieldsNumbers fs
end

namespace Token

theorem spells_mark {c : Char} {t : Token} (hc : isBlank c = false)
    (ht : ∀ cs, first? c cs = some (t, cs)) : Spells [c] [t] :=
  .mark hc ht spells_nil

theorem spells_null : Spells "null".toList [.null] := fun _ _ _ h =>
  .token rfl rfl (Nat.le_add_right _ 3) h

theorem spells_true : Spells "true".toList [.bool true] := fun _ _ _ h =>
  .token rfl rfl (Nat.le_add_right _ 3) h

theorem spells_false : Spells "false".toList [.bool false] := fun _ _ _ h =>
  .token rfl rfl (Nat.le_add_right _ 4) h

theorem ends_itemsChars (xs : List Json) : Ends (itemsChars xs) := by
  cases xs with
  | nil => exact ends_nil
  | cons x xs => exact ends_cons _ (by decide)

theorem ends_fieldsChars (fs : List (String × Json)) : Ends (fieldsChars fs) := by
  cases fs with
  | nil => exact ends_nil
  | cons f fs => exact ends_cons _ (by decide)

mutual
theorem spells_chars (v : Json) (h : ∀ n ∈ v.numbers, Lexes n) : Spells (chars v) (tokens v) := by
  cases v with
  | null => exact spells_null
  | bool b =>
      cases b with
      | false => exact spells_false
      | true => exact spells_true
  | number n => exact spells_numberChars (h n List.mem_cons_self)
  | string s => exact spells_stringChars s
  | array items =>
      cases items with
      | nil => exact .mark rfl (fun _ => rfl) (spells_mark rfl fun _ => rfl)
      | cons x xs =>
          simp only [numbers, itemsNumbers, List.forall_mem_append] at h
          have hitems := (spells_chars x h.1).append (spells_itemsChars xs h.2) (ends_itemsChars xs)
          exact .mark rfl (fun _ => rfl)
            (hitems.append (spells_mark rfl fun _ => rfl) (ends_cons _ (by decide)))
  | object fields =>
      cases fields with
      | nil => exact .mark rfl (fun _ => rfl) (spells_mark rfl fun _ => rfl)
      | cons f fs =>
          obtain ⟨k, v⟩ := f
          simp only [numbers, fieldsNumbers, List.forall_mem_append] at h
          have hvalue : Spells (':' :: chars v) (.colon :: tokens v) :=
            .mark rfl (fun _ => rfl) (spells_chars v h.1)
          have hfields := ((spells_stringChars k).append hvalue (ends_cons _ (by decide))).append
            (spells_fieldsChars fs h.2) (ends_fieldsChars fs)
          exact .mark rfl (fun _ => rfl)
            (hfields.append (spells_mark rfl fun _ => rfl) (ends_cons _ (by decide)))

theorem spells_itemsChars (xs : List Json) (h : ∀ n ∈ itemsNumbers xs, Lexes n) :
    Spells (itemsChars xs) (itemsTokens xs) := by
  cases xs with
  | nil => exact spells_nil
  | cons x xs =>
      simp only [itemsNumbers, List.forall_mem_append] at h
      exact .mark rfl (fun _ => rfl)
        ((spells_chars x h.1).append (spells_itemsChars xs h.2) (ends_itemsChars xs))

theorem spells_fieldsChars (fs : List (String × Json)) (h : ∀ n ∈ fieldsNumbers fs, Lexes n) :
    Spells (fieldsChars fs) (fieldsTokens fs) := by
  cases fs with
  | nil => exact spells_nil
  | cons f fs =>
      obtain ⟨k, v⟩ := f
      simp only [fieldsNumbers, List.forall_mem_append] at h
      have hvalue : Spells (':' :: (chars v ++ fieldsChars fs))
          (.colon :: (tokens v ++ fieldsTokens fs)) :=
        .mark rfl (fun _ => rfl)
          ((spells_chars v h.1).append (spells_fieldsChars fs h.2) (ends_fieldsChars fs))
      exact .mark rfl (fun _ => rfl)
        ((spells_stringChars k).append hvalue (ends_cons _ (by decide)))
end

theorem ends_newline (depth : Nat) : Ends (newline depth) :=
  ends_cons _ (by decide)

theorem isBlank_of_mem_newline (depth : Nat) : ∀ c ∈ newline depth, isBlank c = true := by
  intro c hc
  obtain rfl | hc := List.mem_cons.1 hc
  · rfl
  · rw [List.eq_of_mem_replicate hc]
    rfl

theorem isBlank_space : ∀ c ∈ [' '], isBlank c = true := by
  simp [isBlank]

theorem spells_newline (depth : Nat) : Spells (newline depth) [] := by
  have h := spells_nil.blanks (isBlank_of_mem_newline depth)
  rwa [List.append_nil] at h

theorem Spells.append_newline {cs : List Char} {ts : List Token} (h : Spells cs ts)
    (depth : Nat) : Spells (cs ++ newline depth) ts := by
  have happ := h.append (spells_newline depth) (ends_newline depth)
  rwa [List.append_nil] at happ

theorem ends_prettyItems (depth : Nat) (xs : List Json) : Ends (prettyItems depth xs) := by
  cases xs with
  | nil => exact ends_nil
  | cons x xs => exact ends_cons _ (by decide)

theorem ends_prettyFields (depth : Nat) (fs : List (String × Json)) :
    Ends (prettyFields depth fs) := by
  cases fs with
  | nil => exact ends_nil
  | cons f fs => exact ends_cons _ (by decide)

mutual
theorem spells_prettyChars (depth : Nat) (v : Json) (h : ∀ n ∈ v.numbers, Lexes n) :
    Spells (prettyChars depth v) (tokens v) := by
  cases v with
  | null => exact spells_null
  | bool b =>
      cases b with
      | false => exact spells_false
      | true => exact spells_true
  | number n => exact spells_numberChars (h n List.mem_cons_self)
  | string s => exact spells_stringChars s
  | array items =>
      cases items with
      | nil => exact .mark rfl (fun _ => rfl) (spells_mark rfl fun _ => rfl)
      | cons x xs =>
          simp only [numbers, itemsNumbers, List.forall_mem_append] at h
          have hitems := ((spells_prettyChars (depth + 1) x h.1).blanks
            (isBlank_of_mem_newline (depth + 1))).append
            (spells_prettyItems (depth + 1) xs h.2) (ends_prettyItems _ xs)
          exact .mark rfl (fun _ => rfl) ((hitems.append_newline depth).append
            (spells_mark rfl fun _ => rfl) (ends_cons _ (by decide)))
  | object fields =>
      cases fields with
      | nil => exact .mark rfl (fun _ => rfl) (spells_mark rfl fun _ => rfl)
      | cons f fs =>
          obtain ⟨k, v⟩ := f
          simp only [numbers, fieldsNumbers, List.forall_mem_append] at h
          have hvalue : Spells (':' :: ' ' :: prettyChars (depth + 1) v) (.colon :: tokens v) :=
            .mark rfl (fun _ => rfl)
              ((spells_prettyChars (depth + 1) v h.1).blanks isBlank_space)
          have hfields := ((((spells_stringChars k).blanks
            (isBlank_of_mem_newline (depth + 1))).append hvalue
            (ends_cons _ (by decide))).append (spells_prettyFields (depth + 1) fs h.2)
            (ends_prettyFields _ fs))
          exact .mark rfl (fun _ => rfl) ((hfields.append_newline depth).append
            (spells_mark rfl fun _ => rfl) (ends_cons _ (by decide)))

theorem spells_prettyItems (depth : Nat) (xs : List Json) (h : ∀ n ∈ itemsNumbers xs, Lexes n) :
    Spells (prettyItems depth xs) (itemsTokens xs) := by
  cases xs with
  | nil => exact spells_nil
  | cons x xs =>
      simp only [itemsNumbers, List.forall_mem_append] at h
      exact .mark rfl (fun _ => rfl)
        (((spells_prettyChars depth x h.1).blanks (isBlank_of_mem_newline depth)).append
          (spells_prettyItems depth xs h.2) (ends_prettyItems _ xs))

theorem spells_prettyFields (depth : Nat) (fs : List (String × Json))
    (h : ∀ n ∈ fieldsNumbers fs, Lexes n) : Spells (prettyFields depth fs) (fieldsTokens fs) := by
  cases fs with
  | nil => exact spells_nil
  | cons f fs =>
      obtain ⟨k, v⟩ := f
      simp only [fieldsNumbers, List.forall_mem_append] at h
      have hvalue : Spells (':' :: ' ' :: prettyChars depth v) (.colon :: tokens v) :=
        .mark rfl (fun _ => rfl)
          ((spells_prettyChars depth v h.1).blanks isBlank_space)
      have hkey := (spells_stringChars k).blanks (isBlank_of_mem_newline depth)
      have hfield := hkey.append hvalue (ends_cons _ (by decide))
      exact .mark rfl (fun _ => rfl)
        (hfield.append (spells_prettyFields depth fs h.2) (ends_prettyFields _ fs))
end
theorem tokens_eq_cons (v : Json) : ∃ t ts, tokens v = t :: ts ∧ t ≠ .closeBracket := by
  cases v with
  | array items => cases items <;> exact ⟨_, _, rfl, by decide⟩
  | object fields => cases fields <;> exact ⟨_, _, rfl, by decide⟩
  | null | bool _ | number _ | string _ => exact ⟨_, _, rfl, by simp⟩

theorem readValue_array {fuel : Nat} {v : Json} {ts ts₁ rest : List Token} {x : Document}
    {xs : List Document} (hx : readValue fuel (tokens v ++ ts) = some (x, ts₁))
    (hxs : readItems fuel ts₁ = some (xs, rest)) :
    readValue (fuel + 1) (.openBracket :: (tokens v ++ ts)) = some (.sequence (x :: xs), rest) := by
  obtain ⟨t, ts', hv, ht⟩ := tokens_eq_cons v
  rw [readValue.eq_def]
  dsimp only
  split
  next heq =>
    rw [hv] at heq
    exact absurd (List.cons.inj heq).1 ht
  next => simp [hx, hxs]

/- Twice as many steps as there are tokens are enough; every call takes one. -/
mutual
theorem readValue_tokens (fuel : Nat) (v : Json) (ts : List Token)
    (hf : 2 * (tokens v).length ≤ fuel) :
    readValue fuel (tokens v ++ ts) = some (Document.ofJson v, ts) := by
  cases fuel with
  | zero =>
      obtain ⟨t, ts', hv, -⟩ := tokens_eq_cons v
      simp [hv] at hf
  | succ fuel =>
      cases v with
      | null | bool _ | number _ | string _ => rfl
      | array items =>
          cases items with
          | nil => rfl
          | cons x xs =>
              simp only [tokens, List.length_cons, List.length_append, List.length_nil] at hf
              have hx := readValue_tokens fuel x (itemsTokens xs ++ .closeBracket :: ts) (by omega)
              have hxs := readItems_tokens fuel xs ts (by omega)
              simpa [tokens, Document.ofJson, Document.itemsOfJson] using readValue_array hx hxs
      | object fields =>
          cases fields with
          | nil => rfl
          | cons f fs =>
              obtain ⟨k, v⟩ := f
              simp only [tokens, List.length_cons, List.length_append, List.length_nil] at hf
              have hv := readEntry_tokens fuel k v (fieldsTokens fs ++ .closeBrace :: ts) (by omega)
              have hfs := readEntries_tokens fuel fs ts (by omega)
              simp [tokens, readValue, Document.ofJson, Document.entriesOfJson, hv, hfs]
termination_by fuel

theorem readItems_tokens (fuel : Nat) (xs : List Json) (ts : List Token)
    (hf : 2 * (itemsTokens xs).length < fuel) :
    readItems fuel (itemsTokens xs ++ .closeBracket :: ts) =
      some (Document.itemsOfJson xs, ts) := by
  cases fuel with
  | zero => cases hf
  | succ fuel =>
      cases xs with
      | nil => rfl
      | cons x xs =>
          simp only [itemsTokens, List.length_cons, List.length_append] at hf
          have hx := readValue_tokens fuel x (itemsTokens xs ++ .closeBracket :: ts) (by omega)
          have hxs := readItems_tokens fuel xs ts (by omega)
          simp [itemsTokens, readItems, Document.itemsOfJson, hx, hxs]
termination_by fuel

theorem readEntry_tokens (fuel : Nat) (k : String) (v : Json) (ts : List Token)
    (hf : 2 * (tokens v).length < fuel) :
    readEntry fuel (.string k :: .colon :: (tokens v ++ ts)) =
      some ((some k, Document.ofJson v), ts) := by
  cases fuel with
  | zero => cases hf
  | succ fuel =>
      have hv := readValue_tokens fuel v ts (by omega)
      simp [readEntry, hv]
termination_by fuel

theorem readEntries_tokens (fuel : Nat) (fs : List (String × Json)) (ts : List Token)
    (hf : 2 * (fieldsTokens fs).length < fuel) :
    readEntries fuel (fieldsTokens fs ++ .closeBrace :: ts) =
      some (Document.entriesOfJson fs, ts) := by
  cases fuel with
  | zero => cases hf
  | succ fuel =>
      cases fs with
      | nil => rfl
      | cons f fs =>
          obtain ⟨k, v⟩ := f
          simp only [fieldsTokens, List.length_cons, List.length_append] at hf
          have hv := readEntry_tokens fuel k v (fieldsTokens fs ++ .closeBrace :: ts) (by omega)
          have hfs := readEntries_tokens fuel fs ts (by omega)
          simp [fieldsTokens, readEntries, Document.entriesOfJson, hv, hfs]
termination_by fuel
end

theorem document?_tokens (v : Json) : document? (tokens v) = some (Document.ofJson v) := by
  have h := readValue_tokens (2 * (tokens v).length + 2) v [] (Nat.le_add_right _ 2)
  rw [List.append_nil] at h
  rw [document?, h]

end Token

theorem document?_compact {v : Json} (h : ∀ n ∈ v.numbers, Token.Lexes n) :
    document? v.compact = some (Document.ofJson v) := by
  rw [document?, compact, String.toList_ofList, (Token.spells_chars v h).scan]
  exact Token.document?_tokens v

theorem document?_pretty {v : Json} (h : ∀ n ∈ v.numbers, Token.Lexes n) :
    document? v.pretty = some (Document.ofJson v) := by
  rw [document?, pretty, String.toList_ofList, (Token.spells_prettyChars 0 v h).scan]
  exact Token.document?_tokens v

end Experiment.Json
