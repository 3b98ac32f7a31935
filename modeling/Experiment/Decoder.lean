import Experiment.Document

/-!
# Decoding documents

A `Decoder α` reads a document as a value of `α`. A record may be written as a mapping, in which no
known field may be repeated and unknown ones are passed over, or, in notations that admit it, as a
sequence of its fields in order.
-/

namespace Experiment

inductive Notation where
  | json
  | toml
  | yaml
deriving DecidableEq

/-- The notation that a document was written in, and how many more levels it may have. -/
structure Reading where
  form : Notation
  levels : Nat

abbrev Decoder (α : Type) := Reading → Document → Option α

namespace Reading

def json : Reading := ⟨.json, 127⟩

def toml : Reading := ⟨.toml, 128⟩

def yaml : Reading := ⟨.yaml, 128⟩

def inner? (r : Reading) : Option Reading :=
  match r.levels with
  | 0 => none
  | levels + 1 => some ⟨r.form, levels⟩

end Reading

namespace Decoder
variable {α β : Type}

def map (f : α → β) (d : Decoder α) : Decoder β :=
  fun r doc => (d r doc).map f

def value : Decoder Json :=
  fun r doc => doc.toJson? r.levels

def text : Decoder String
  | _, .string s => some s
  | _, .word w => some w.text
  | _, .tagged _ (.word w) => some w.text
  | _, _ => none

def bool : Decoder Bool
  | _, .bool b => some b
  | _, .word w => if w.plain then Word.bool? w.text else none
  | _, _ => none

def natBelow (bound : Nat) : Decoder Nat
  | _, .number (.int i) => if 0 ≤ i && i < bound then some i.toNat else none
  | _, .word w =>
    if w.plain then
      match Word.nat? w.text.toList with
      | some n => if n < bound then some n else none
      | none => none
    else none
  | _, _ => none

def number : Decoder Number
  | _, .number n => some n
  | _, _ => none

/-- Does the document say that there is no value? -/
def isAbsent : Document → Bool
  | .null => true
  | .word w => w.plain && match w.resolution with
    | .inferred => w.text = "" || Word.isNull w.text
    | .null => Word.isNull w.text
    | _ => false
  | _ => false

/-- Is a bare word said to be no value, without being one? -/
def isFalseNull : Document → Bool
  | .word w => w.plain && w.resolution = .null && !Word.isNull w.text
  | _ => false

def optional (d : Decoder α) : Decoder (Option α) :=
  fun r doc =>
    if isAbsent doc then some none
    else if isFalseNull doc then none
    else (d r doc).map some

def each (d : Decoder α) (r : Reading) : List Document → Option (List α)
  | [] => some []
  | x :: xs => do
    let v ← d r x
    let vs ← each d r xs
    return v :: vs

/-- In a notation of bare words nothing at all is an empty sequence, and an empty mapping. -/
def isNothing : Document → Bool
  | .word w => w.plain && w.text = ""
  | .tagged _ (.word w) => w.plain && w.text = ""
  | _ => false

def list (d : Decoder α) : Decoder (List α) :=
  fun r doc =>
    match doc with
    | .sequence items => (r.inner?).bind fun r => each d r items
    | .tagged _ (.sequence items) => (r.inner?).bind fun r => each d r items
    | doc => if isNothing doc then some [] else none

def eachEntry (d : Decoder α) (r : Reading) :
    List (Option String × Document) → Option (List (String × α))
  | [] => some []
  | (key, x) :: rest => do
    let key ← key
    let v ← d r x
    let vs ← eachEntry d r rest
    return (key, v) :: vs

def entries? (r : Reading) (doc : Document) :
    Option (Reading × List (Option String × Document)) :=
  match doc with
  | .mapping entries => (r.inner?).map fun r => (r, entries)
  | .tagged _ (.mapping entries) => (r.inner?).map fun r => (r, entries)
  | doc => if isNothing doc then some (r, []) else none

/-- A repeated key keeps its first place and its last value. -/
def dictionary (d : Decoder α) : Decoder (OrderedMap α) :=
  fun r doc => do
    let (r, entries) ← entries? r doc
    let pairs ← eachEntry d r entries
    return OrderedMap.ofPairs pairs

/-- One name of a list. JSON may also write it as the only key of an object, with the value null. -/
def name (names : List (String × α)) : Decoder α
  | _, .string s => OrderedMap.find? s names
  | _, .word w => OrderedMap.find? w.text names
  | r, .mapping [(some s, .null)] =>
    if r.form = .json && 0 < r.levels then OrderedMap.find? s names else none
  | _, .tagged s (.word w) =>
    if w.text = "" || Word.isNull w.text then OrderedMap.find? s names else none
  | _, _ => none

structure Fields where
  reading : Reading
  entries : List (String × Document)

/-- The entries under known names, none if one is repeated or a key is no text. -/
def known? (names : List String) :
    List (Option String × Document) → Option (List (String × Document))
  | [] => some []
  | (key, d) :: rest => do
    let key ← key
    let found ← known? names rest
    if key ∈ names then
      if OrderedMap.has key found then none else return (key, d) :: found
    else return found

/-- A record written as a mapping. -/
def named (names : List String) (r : Reading) (doc : Document) : Option Fields := do
  let (r, entries) ← entries? r doc
  let found ← known? names entries
  return ⟨r, found⟩

/-- A record written as a mapping or as a sequence. -/
def record (names : List String) (r : Reading) (doc : Document) : Option Fields :=
  match doc with
  | .sequence items =>
    if r.form = .yaml || (r.form = .json && names.length < items.length) then none
    else (r.inner?).map fun r => ⟨r, names.zip items⟩
  | doc => named names r doc

namespace Fields

def required (f : Fields) (name : String) (d : Decoder α) : Option α :=
  match OrderedMap.find? name f.entries with
  | some doc => d f.reading doc
  | none => none

def orElse (f : Fields) (name : String) (fallback : α) (d : Decoder α) : Option α :=
  match OrderedMap.find? name f.entries with
  | some doc => d f.reading doc
  | none => some fallback

def maybe (f : Fields) (name : String) (d : Decoder α) : Option (Option α) :=
  f.orElse name none (optional d)

end Fields

end Decoder

end Experiment
