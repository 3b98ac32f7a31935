import Experiment.Cli.Assignment
import Experiment.Proofs.Decoding
import Experiment.Proofs.TextParts

/-!
# What is assigned on the command line

A value that is written as JSON after a name is read back as that value, whatever quotes, commas and
equals signs are in it, and so is a list of candidates. Candidates between commas are read one by
one, unless they are an array when taken together. An array has one more level than the deepest of
its items, so of the values that are parameters the deepest are no candidates of an array: its text
is then read between commas.
-/

namespace Experiment

namespace Json

/-- A value as programs hold it, with at most so many levels of arrays and objects: its integers
have 64 bits, and no field of an object is repeated. -/
inductive Within : Nat → Json → Prop
  | null {n : Nat} : Within n .null
  | bool {n : Nat} (b : Bool) : Within n (.bool b)
  | int {n : Nat} {i : Int} (hi : Number.fits i = true) : Within n (.number (.int i))
  | float {n : Nat} (bits : UInt64) : Within n (.number (.float bits))
  | string {n : Nat} (s : String) : Within n (.string s)
  | array {n : Nat} {items : List Json} (h : ∀ v ∈ items, Within n v) : Within (n + 1) (.array items)
  | object {n : Nat} {fields : OrderedMap Json} (hn : (OrderedMap.keys fields).Nodup)
    (h : ∀ f ∈ fields, Within n f.2) : Within (n + 1) (.object fields)

variable {n : Nat} {v : Json} {values : List Json}

theorem Within.gives (h : v.Within n) : Decoder.value.Gives ⟨.json, n⟩ v v := by
  induction h with
  | null => exact ⟨.null, rfl⟩
  | bool b => exact ⟨.bool b, rfl⟩
  | int hi => exact ⟨.int hi, rfl⟩
  | float bits => exact ⟨.float bits, rfl⟩
  | string s => exact ⟨.string s, rfl⟩
  | array h ih => exact Decoder.gives_value_array ih
  | object hn h ih => exact Decoder.gives_value_object hn ih

theorem Within.parse?_compact (h : v.Within maxLevels) (hf : v.FloatsReadBack) :
    parse? v.compact = some v := by
  rw [parse?, document?_compact (lexes_of_mem_numbers h.gives.1 hf), Option.bind_some]
  exact h.gives.2

theorem FloatsReadBack.array (h : ∀ v ∈ values, v.FloatsReadBack) :
    (Json.array values).FloatsReadBack := by
  induction values with
  | nil => exact nofun
  | cons v values ih =>
      obtain ⟨hv, hvalues⟩ := List.forall_mem_cons.1 h
      intro bits hbits
      obtain hbits | hbits := List.mem_append.1 hbits
      · exact hv bits hbits
      · exact ih hvalues bits hbits

def nested : Nat → Json
  | 0 => .array []
  | n + 1 => .array [nested n]

theorem within_nested (n : Nat) : (nested n).Within (n + 1) := by
  induction n with
  | zero => exact .array nofun
  | succ n ih => exact .array (List.forall_mem_singleton.2 ih)

theorem numbers_nested (n : Nat) : (nested n).numbers = [] := by
  induction n with
  | zero => rfl
  | succ n ih => simp [nested, numbers, itemsNumbers, ih]

theorem toJson?_nested {k n : Nat} (hk : k ≤ n) : (Document.ofJson (nested n)).toJson? k = none := by
  induction n generalizing k with
  | zero =>
      obtain rfl := Nat.le_zero.1 hk
      rfl
  | succ n ih =>
      cases k with
      | zero => rfl
      | succ k =>
          have hinner := ih (Nat.le_of_succ_le_succ hk)
          simp [nested, Document.ofJson, Document.itemsOfJson, Document.toJson?,
            Document.itemsToJson?, hinner]

theorem not_mem_chars_nested (n : Nat) : ',' ∉ (nested n).chars := by
  induction n with
  | zero => decide
  | succ n ih => simp [nested, chars, itemsChars, ih]

theorem trim_array (values : List Json) :
    Text.trim (Json.array values).compact = (Json.array values).compact := by
  have hopen : Text.isBlank '[' = false := by decide
  have hclose : Text.isBlank ']' = false := by decide
  rw [compact, Text.trim, String.toList_ofList]
  cases values with
  | nil => exact congrArg String.ofList (Text.trimChars_of_ends hopen hclose [])
  | cons v values => exact congrArg String.ofList (Text.trimChars_of_ends hopen hclose _)

end Json

namespace Cli
variable {name value : String}

theorem splitAssignment_eq (hname : Text.isBlankText name = false) (heq : '=' ∉ name.toList)
    (value : String) : splitAssignment (name ++ "=" ++ value) = .ok (Text.trim name, value) := by
  have hlist : (name ++ "=" ++ value).toList = name.toList ++ '=' :: value.toList := by simp
  have htrim : (Text.trimChars name.toList).isEmpty = false := by
    rw [Bool.eq_false_iff, Ne, List.isEmpty_iff, Text.trimChars_eq_nil_iff, ← List.all_eq_true]
    exact Bool.eq_false_iff.1 hname
  rw [splitAssignment, hlist, Text.splitFirst?_append heq]
  simp [htrim, Text.trim]

theorem parseHyper_eq (hname : Text.isBlankText name = false) (heq : '=' ∉ name.toList)
    (hvalue : candidates value ≠ []) :
    parseHyper (name ++ "=" ++ value) = .ok (Text.trim name, candidates value) := by
  have hempty : (candidates value).isEmpty = false := by simpa using hvalue
  simp [parseHyper, splitAssignment_eq hname heq, hempty]

theorem candidates_of_array {values : List Json} (h : Json.parse? value = some (.array values)) :
    candidates value = values := by
  rw [candidates, h]

theorem candidates_of_text (h : Json.parse? value = none) (hcomma : ',' ∉ value.toList) :
    candidates value = [parseValue (Text.trim value)] := by
  rw [candidates, h, Text.splitOn_of_not_mem hcomma]
  rfl

theorem candidates_of_texts {texts : List String} (ht : texts ≠ [])
    (hcomma : ∀ t ∈ texts, ',' ∉ t.toList)
    (h : ∀ values, Json.parse? (Text.joinWith "," texts) ≠ some (.array values)) :
    candidates (Text.joinWith "," texts) = texts.map fun t => parseValue (Text.trim t) := by
  have hsplit := Text.splitOn_joinWith ',' "," rfl ht hcomma
  rw [candidates]
  split
  next values hvalues => exact absurd hvalues (h values)
  next =>
    simp only [hsplit, List.map_map, Function.comp_def, Text.trim]

/-- What is assigned to a name is read back: a value, a list of candidates as long as the array of
them is within the levels, and candidates between commas. -/
theorem assignments_read_back (name : String) (hname : Text.isBlankText name = false)
    (heq : '=' ∉ name.toList) :
    (∀ v : Json, v.Within Json.maxLevels → v.FloatsReadBack →
      parseParam (name ++ "=" ++ v.compact) = .ok (Text.trim name, v)) ∧
    (∀ values : List Json, values ≠ [] → (Json.array values).Within Json.maxLevels →
      (∀ v ∈ values, v.FloatsReadBack) →
      parseHyper (name ++ "=" ++ (Json.array values).compact) = .ok (Text.trim name, values)) ∧
    ∀ texts : List String, texts ≠ [] → (∀ t ∈ texts, ',' ∉ t.toList) →
      (∀ values, Json.parse? (Text.joinWith "," texts) ≠ some (.array values)) →
      parseHyper (name ++ "=" ++ Text.joinWith "," texts) =
        .ok (Text.trim name, texts.map fun t => parseValue (Text.trim t)) := by
  refine ⟨fun v hv hf => ?_, fun values hne hvalues hf => ?_, fun texts hne hcomma harray => ?_⟩
  · rw [parseParam, splitAssignment_eq hname heq, Except.map, parseValue,
      hv.parse?_compact hf, Option.getD_some]
  · have hread := candidates_of_array (hvalues.parse?_compact (.array hf))
    have hsome : candidates (Json.array values).compact ≠ [] := by rwa [hread]
    rw [parseHyper_eq hname heq hsome, hread]
  · have hread := candidates_of_texts hne hcomma harray
    have hsome : candidates (Text.joinWith "," texts) ≠ [] := by simpa [hread] using hne
    rw [parseHyper_eq hname heq hsome, hread]

theorem assignments_read_back_marks :
    parseParam (" p " ++ "=" ++ (Json.string "a=b").compact) = .ok ("p", .string "a=b") ∧
      parseHyper (" p " ++ "=" ++
        (Json.array [.number (.float 0x3FE0000000000000), .string "a,b"]).compact) =
          .ok ("p", [.number (.float 0x3FE0000000000000), .string "a,b"]) ∧
      parseHyper (" p " ++ "=" ++ Text.joinWith "," ["adam", " sgd", "3"]) =
        .ok ("p", [.string "adam", .string "sgd", .number (.int 3)]) := by
  obtain ⟨hparam, harray, htexts⟩ := assignments_read_back " p " (by decide) (by decide)
  have hp : Text.trim " p " = "p" := by decide +kernel
  have hhalf : (Number.float 0x3FE0000000000000).ReadsBack := by
    change Json.parse? _ = _
    decide +kernel
  have hvalues : ["adam", " sgd", "3"].map (fun t => parseValue (Text.trim t)) =
      [.string "adam", .string "sgd", .number (.int 3)] := by decide +kernel
  have hnone : Json.parse? (Text.joinWith "," ["adam", " sgd", "3"]) = none := by decide +kernel
  rw [hp] at hparam harray htexts
  refine ⟨hparam _ (.string _) nofun, harray _ (by simp) (.array ?_) ?_, ?_⟩
  · simpa using ⟨.float _, .string _⟩
  · simpa [Json.FloatsReadBack, Json.numbers] using hhalf
  · rw [htexts _ (by simp) (by decide) (by simp [hnone]), hvalues]

theorem candidates_nested {n : Nat} (hn : Json.maxLevels ≤ n) :
    candidates (Json.nested n).compact = [.string (Json.nested n).compact] := by
  have hparse : Json.parse? (Json.nested n).compact = none := by
    rw [Json.parse?, Json.document?_compact (by rw [Json.numbers_nested]; exact nofun),
      Option.bind_some, Json.toJson?_nested hn]
  have hcomma : ',' ∉ (Json.nested n).compact.toList := by
    rw [Json.compact, String.toList_ofList]
    exact Json.not_mem_chars_nested n
  have htrim : Text.trim (Json.nested n).compact = (Json.nested n).compact := by
    cases n <;> exact Json.trim_array _
  rw [candidates_of_text hparse hcomma, htrim, parseValue, hparse, Option.getD_none]

/-- The deepest parameter is no candidate of an array: the array is taken for a text. -/
theorem takes_deepest_for_text :
    let v := Json.nested 126
    v.Within Json.maxLevels ∧ v.FloatsReadBack ∧
      parseHyper ("p" ++ "=" ++ (Json.array [v]).compact) =
        .ok ("p", [.string (Json.array [v]).compact]) ∧
      parseHyper ("p" ++ "=" ++ (Json.array [v]).compact) ≠ .ok ("p", [v]) := by
  intro v
  have hfloats : v.FloatsReadBack := by
    rw [Json.FloatsReadBack, Json.numbers_nested]
    exact nofun
  have hp : Text.trim "p" = "p" := by decide +kernel
  have hread : candidates (Json.array [v]).compact = [.string (Json.array [v]).compact] :=
    candidates_nested (n := 127) (Nat.le_refl 127)
  have hname : Text.isBlankText "p" = false := by decide
  have heq : '=' ∉ "p".toList := by decide
  have hsome : candidates (Json.array [v]).compact ≠ [] := by
    rw [hread]
    exact List.cons_ne_nil _ _
  have hhyper := parseHyper_eq hname heq hsome
  rw [hread, hp] at hhyper
  refine ⟨Json.within_nested 126, hfloats, hhyper, ?_⟩
  have harray : v = .array [Json.nested 125] := rfl
  rw [hhyper, harray]
  exact nofun

end Cli

end Experiment
