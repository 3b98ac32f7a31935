import Experiment.Proofs.Json.Text

/-!
# The documents of JSON texts

A document that was read from JSON text has no bare words and no tags, and its integers are held
exactly. The document of a value is such a one if the integers of the value are held exactly; then
the value is read back from what is written of it, as far as its doubles are.
-/

namespace Experiment

/-- As JSON text can be read. -/
inductive Document.IsJson : Document → Prop
  | null : IsJson .null
  | bool (b : Bool) : IsJson (.bool b)
  | int {i : Int} (h : Number.fits i = true) : IsJson (.number (.int i))
  | float (bits : UInt64) : IsJson (.number (.float bits))
  | string (s : String) : IsJson (.string s)
  | unreadable : IsJson .unreadable
  | sequence {items : List Document} (h : ∀ d ∈ items, IsJson d) : IsJson (.sequence items)
  | mapping {entries : List (Option String × Document)} (h : ∀ e ∈ entries, IsJson e.2) :
    IsJson (.mapping entries)

namespace Json

namespace Token

def Fits : Token → Prop
  | .number (.int i) => Number.fits i = true
  | _ => True

theorem fits_of_toNumber? {l : Lexeme} {i : Int} (h : l.toNumber? = some (.int i)) :
    Number.fits i = true := by
  unfold Lexeme.toNumber? at h
  dsimp only at h
  split at h
  next hc =>
    cases h
    simp only [Bool.and_eq_true, decide_eq_true_eq] at hc
    simp only [Number.fits, Bool.and_eq_true, decide_eq_true_eq]
    omega
  next =>
    split at h
    next hc =>
      cases h
      simp only [Bool.and_eq_true, decide_eq_true_eq] at hc
      simp only [Number.fits, Bool.and_eq_true, decide_eq_true_eq]
      omega
    next =>
      obtain ⟨f, -, h⟩ := Option.map_eq_some_iff.1 h
      cases h

theorem fits_of_first? {c : Char} {cs rest : List Char} {t : Token}
    (h : first? c cs = some (t, rest)) : t.Fits := by
  cases t with
  | number n =>
      cases n with
      | int i =>
          obtain ⟨l, -, hl⟩ := lexeme_of_first? h
          exact fits_of_toNumber? hl
      | float bits => exact trivial
  | _ => exact trivial

theorem fits_of_scanFuel {fuel : Nat} {cs : List Char} {ts : List Token}
    (h : scanFuel fuel cs = some ts) : ∀ t ∈ ts, t.Fits := by
  induction fuel generalizing cs ts with
  | zero =>
      cases cs with
      | nil =>
          cases h
          simp
      | cons c cs => cases h
  | succ fuel ih =>
      cases cs with
      | nil =>
          cases h
          simp
      | cons c cs =>
          rw [scanFuel] at h
          split at h
          next => exact ih h
          next =>
            obtain ⟨⟨t, rest⟩, ht, h⟩ := Option.bind_eq_some_iff.1 h
            obtain ⟨ts', hts, h⟩ := Option.bind_eq_some_iff.1 h
            cases h
            exact List.forall_mem_cons.2 ⟨fits_of_first? ht, ih hts⟩

/-- What is read from fitting tokens is good, and fitting tokens are left. -/
def Sound {α : Type} (read : List Token → Option (α × List Token)) (good : α → Prop) : Prop :=
  ∀ ts a rest, read ts = some (a, rest) → (∀ t ∈ ts, t.Fits) → good a ∧ ∀ t ∈ rest, t.Fits

theorem sound_readValue {fuel : Nat} (hvalue : Sound (readValue fuel) Document.IsJson)
    (hitems : Sound (readItems fuel) fun ds => ∀ d ∈ ds, d.IsJson)
    (hentry : Sound (readEntry fuel) fun e => e.2.IsJson)
    (hentries : Sound (readEntries fuel) fun es => ∀ e ∈ es, e.2.IsJson) :
    Sound (readValue (fuel + 1)) Document.IsJson := by
  intro ts d rest h ht
  cases ts with
  | nil => cases h
  | cons t ts =>
      obtain ⟨hfits, hts⟩ := List.forall_mem_cons.1 ht
      cases t with
      | openBracket =>
          obtain ⟨rfl, rfl⟩ | ⟨x, xs, ts', hx, hxs, rfl⟩ := readValue_openBracket h
          · exact ⟨.sequence (by simp), (List.forall_mem_cons.1 hts).2⟩
          · obtain ⟨hjson, ht'⟩ := hvalue _ _ _ hx hts
            obtain ⟨hall, hrest⟩ := hitems _ _ _ hxs ht'
            exact ⟨.sequence (List.forall_mem_cons.2 ⟨hjson, hall⟩), hrest⟩
      | openBrace =>
          obtain ⟨rfl, rfl⟩ | ⟨e, es, ts', he, hes, rfl⟩ := readValue_openBrace h
          · exact ⟨.mapping (by simp), (List.forall_mem_cons.1 hts).2⟩
          · obtain ⟨hjson, ht'⟩ := hentry _ _ _ he hts
            obtain ⟨hall, hrest⟩ := hentries _ _ _ hes ht'
            exact ⟨.mapping (List.forall_mem_cons.2 ⟨hjson, hall⟩), hrest⟩
      | number n =>
          cases h
          cases n with
          | int i => exact ⟨.int hfits, hts⟩
          | float bits => exact ⟨.float bits, hts⟩
      | closeBracket | closeBrace | comma | colon => cases h
      | null | bool _ | string _ | unreadableString | unreadableNumber =>
          cases h
          exact ⟨by constructor, hts⟩

theorem sound_readItems {fuel : Nat} (hvalue : Sound (readValue fuel) Document.IsJson)
    (hitems : Sound (readItems fuel) fun ds => ∀ d ∈ ds, d.IsJson) :
    Sound (readItems (fuel + 1)) fun ds => ∀ d ∈ ds, d.IsJson := by
  intro ts ds rest h ht
  rw [readItems.eq_def] at h
  dsimp only at h
  split at h
  next =>
    cases h
    exact ⟨by simp, (List.forall_mem_cons.1 ht).2⟩
  next =>
    obtain ⟨⟨x, ts₁⟩, hx, h⟩ := Option.bind_eq_some_iff.1 h
    obtain ⟨⟨xs, ts₂⟩, hxs, h⟩ := Option.bind_eq_some_iff.1 h
    cases h
    obtain ⟨hjson, ht₁⟩ := hvalue _ _ _ hx (List.forall_mem_cons.1 ht).2
    obtain ⟨hall, hrest⟩ := hitems _ _ _ hxs ht₁
    exact ⟨List.forall_mem_cons.2 ⟨hjson, hall⟩, hrest⟩
  next => cases h

theorem sound_readEntry {fuel : Nat} (hvalue : Sound (readValue fuel) Document.IsJson) :
    Sound (readEntry (fuel + 1)) fun e => e.2.IsJson := by
  intro ts e rest h ht
  rw [readEntry.eq_def] at h
  dsimp only at h
  split at h
  case h_3 => cases h
  all_goals
    obtain ⟨⟨d, ts₁⟩, hd, h⟩ := Option.bind_eq_some_iff.1 h
    cases h
    exact hvalue _ _ _ hd (List.forall_mem_cons.1 (List.forall_mem_cons.1 ht).2).2

theorem sound_readEntries {fuel : Nat} (hentry : Sound (readEntry fuel) fun e => e.2.IsJson)
    (hentries : Sound (readEntries fuel) fun es => ∀ e ∈ es, e.2.IsJson) :
    Sound (readEntries (fuel + 1)) fun es => ∀ e ∈ es, e.2.IsJson := by
  intro ts es rest h ht
  rw [readEntries.eq_def] at h
  dsimp only at h
  split at h
  next =>
    cases h
    exact ⟨by simp, (List.forall_mem_cons.1 ht).2⟩
  next =>
    obtain ⟨⟨e, ts₁⟩, he, h⟩ := Option.bind_eq_some_iff.1 h
    obtain ⟨⟨es', ts₂⟩, hes, h⟩ := Option.bind_eq_some_iff.1 h
    cases h
    obtain ⟨hjson, ht₁⟩ := hentry _ _ _ he (List.forall_mem_cons.1 ht).2
    obtain ⟨hall, hrest⟩ := hentries _ _ _ hes ht₁
    exact ⟨List.forall_mem_cons.2 ⟨hjson, hall⟩, hrest⟩
  next => cases h

theorem sound_reading (fuel : Nat) : Sound (readValue fuel) Document.IsJson ∧
    Sound (readItems fuel) (fun ds => ∀ d ∈ ds, d.IsJson) ∧
    Sound (readEntry fuel) (fun e => e.2.IsJson) ∧
    Sound (readEntries fuel) fun es => ∀ e ∈ es, e.2.IsJson := by
  induction fuel with
  | zero => exact ⟨nofun, nofun, nofun, nofun⟩
  | succ fuel ih =>
      obtain ⟨hvalue, hitems, hentry, hentries⟩ := ih
      exact ⟨sound_readValue hvalue hitems hentry hentries, sound_readItems hvalue hitems,
        sound_readEntry hvalue, sound_readEntries hentry hentries⟩

end Token

theorem isJson_of_document? {text : String} {d : Document} (h : document? text = some d) :
    d.IsJson := by
  obtain ⟨ts, hs, h⟩ := Option.bind_eq_some_iff.1 h
  unfold Token.document? at h
  split at h
  next hread =>
    cases h
    exact ((Token.sound_reading _).1 _ _ _ hread (Token.fits_of_scanFuel hs)).1
  next => cases h

end Json

namespace Document

theorem isJson_of_mem_itemsOfJson {xs : List Json} :
    (∀ d ∈ itemsOfJson xs, d.IsJson) ↔ ∀ x ∈ xs, (ofJson x).IsJson := by
  induction xs with
  | nil => simp [itemsOfJson]
  | cons x xs ih => simp [itemsOfJson, ih]

theorem isJson_of_mem_entriesOfJson {fs : List (String × Json)} :
    (∀ e ∈ entriesOfJson fs, e.2.IsJson) ↔ ∀ f ∈ fs, (ofJson f.2).IsJson := by
  induction fs with
  | nil => simp [entriesOfJson]
  | cons f fs ih =>
      rw [entriesOfJson, List.forall_mem_cons, List.forall_mem_cons, ih]

mutual
theorem fits_of_mem_numbers {v : Json} (h : (ofJson v).IsJson) {i : Int}
    (hi : .int i ∈ v.numbers) : Number.fits i = true := by
  cases v with
  | number n =>
      obtain rfl := List.mem_singleton.1 hi
      cases h
      assumption
  | array xs =>
      cases h with
      | sequence h => exact fits_of_mem_itemsNumbers (isJson_of_mem_itemsOfJson.1 h) hi
  | object fs =>
      cases h with
      | mapping h => exact fits_of_mem_fieldsNumbers (isJson_of_mem_entriesOfJson.1 h) hi
  | null | bool _ | string _ => cases hi

theorem fits_of_mem_itemsNumbers {xs : List Json} (h : ∀ x ∈ xs, (ofJson x).IsJson) {i : Int}
    (hi : .int i ∈ Json.itemsNumbers xs) : Number.fits i = true := by
  cases xs with
  | nil => cases hi
  | cons x xs =>
      obtain ⟨hx, hxs⟩ := List.forall_mem_cons.1 h
      obtain hi | hi := List.mem_append.1 hi
      · exact fits_of_mem_numbers hx hi
      · exact fits_of_mem_itemsNumbers hxs hi

theorem fits_of_mem_fieldsNumbers {fs : List (String × Json)}
    (h : ∀ f ∈ fs, (ofJson f.2).IsJson) {i : Int} (hi : .int i ∈ Json.fieldsNumbers fs) :
    Number.fits i = true := by
  cases fs with
  | nil => cases hi
  | cons f fs =>
      obtain ⟨hf, hfs⟩ := List.forall_mem_cons.1 h
      obtain hi | hi := List.mem_append.1 hi
      · exact fits_of_mem_numbers hf hi
      · exact fits_of_mem_fieldsNumbers hfs hi
end

end Document

namespace Json

/-- All doubles of the value are read back from their own texts. -/
def FloatsReadBack (v : Json) : Prop :=
  ∀ bits, .float bits ∈ v.numbers → (Number.float bits).ReadsBack

theorem lexes_of_mem_numbers {v : Json} (h : (Document.ofJson v).IsJson) (hf : v.FloatsReadBack) :
    ∀ n ∈ v.numbers, Token.Lexes n := by
  intro n hn
  cases n with
  | int i => exact Token.lexes_int (Document.fits_of_mem_numbers h hn)
  | float bits => exact Token.lexes_of_readsBack (hf bits hn)

end Json

end Experiment
