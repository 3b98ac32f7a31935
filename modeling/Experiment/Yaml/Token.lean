import Experiment.Yaml.Scalar

/-!
# The tokens of YAML

Besides marks and scalars there are tokens that stand for indentation: the start and the end of
blocks.
-/

namespace Experiment.Yaml

inductive Token where
  | version (major minor : Nat)
  | tagDirective (handle meaning : String)
  | documentStart
  | documentEnd
  | streamEnd
  | blockSequenceStart
  | blockMappingStart
  | blockEnd
  | flowSequenceStart
  | flowSequenceEnd
  | flowMappingStart
  | flowMappingEnd
  | entry
  | flowEntry
  | key
  | value
  | reference (name : String)
  | anchor (name : String)
  | tag (handle suffix : String)
  | scalar (text : String) (plain : Bool)
deriving DecidableEq

namespace Token

def name? (p : Position) : Option (String × Position) :=
  let name := p.rest.takeWhile isWordChar
  let p := p.skip name.length
  let ended := atGap p.rest || match p.rest with
    | c :: _ => ['?', ':', ',', ']', '}', '%', '@', Char.ofNat 0x60].contains c
    | [] => true
  if name.isEmpty || !ended then none else some (String.ofList name, p)

def isUriChar (bracketed : Bool) (c : Char) : Bool :=
  isWordChar c
    || [';', '/', '?', ':', '@', '&', '=', '+', '$', '.', '%', '!', '~', '*', quote, '(',
      ')'].contains c
    || (bracketed && (c = ',' || c = '[' || c = ']'))

def octet? : List Char → Option UInt8
  | '%' :: a :: b :: _ => (Word.natIn? 16 [a, b]).map Nat.toUInt8
  | _ => none

def octetCount? (b : UInt8) : Option Nat :=
  if b < 0x80 then some 1
  else if 0xC0 ≤ b && b < 0xE0 then some 2
  else if 0xE0 ≤ b && b < 0xF0 then some 3
  else if 0xF0 ≤ b && b < 0xF8 then some 4
  else none

def octets? : Nat → List Char → Option (List UInt8)
  | 0, _ => some []
  | n + 1, cs => do
    let b ← octet? cs
    let more ← octets? n (cs.drop 3)
    return b :: more

def escaped? (p : Position) : Option (List Char × Position) := do
  let first ← octet? p.rest
  let n ← octetCount? first
  let bytes ← octets? n p.rest
  let text ← String.fromUTF8? ⟨bytes.toArray⟩
  return (text.toList, p.skip (3 * n))

def uriFuel (bracketed : Bool) : Nat → Position → List Char → Option (List Char × Position)
  | 0, p, read => some (read, p)
  | fuel + 1, p, read =>
    match p.rest with
    | [] => some (read, p)
    | c :: _ =>
      if c = '%' then
        match escaped? p with
        | some (cs, p) => uriFuel bracketed fuel p (cs.reverse ++ read)
        | none => none
      else if isUriChar bracketed c then uriFuel bracketed fuel p.next (c :: read)
      else some (read, p)

def uri? (bracketed : Bool) (p : Position) : Option (String × Position) :=
  (uriFuel bracketed (p.rest.length + 1) p []).map fun r => (String.ofList r.1.reverse, r.2)

def handle? (p : Position) : Option (String × Position) :=
  match p.rest with
  | '!' :: rest =>
    let name := rest.takeWhile isWordChar
    let p := p.skip (name.length + 1)
    match p.rest with
    | '!' :: _ => some (String.ofList ('!' :: name ++ ['!']), p.next)
    | _ => some (String.ofList ('!' :: name), p)
  | _ => none

def isWhole (handle : String) : Bool :=
  handle ≠ "!" && handle.toList.getLast? = some '!'

def tagParts? (p : Position) : Option ((String × String) × Position) :=
  match p.rest with
  | '!' :: '<' :: _ => do
    let (suffix, p) ← uri? true (p.skip 2)
    if suffix = "" then none
    match p.rest with
    | '>' :: _ => return (("", suffix), p.next)
    | _ => none
  | _ => do
    let (handle, p) ← handle? p
    if isWhole handle then
      let (suffix, p) ← uri? false p
      if suffix = "" then none
      return ((handle, suffix), p)
    else
      let (more, p) ← uri? false p
      let suffix := String.ofList (handle.toList.drop 1) ++ more
      return (if suffix = "" then ("", "!") else ("!", suffix), p)

def tag? (flow : Bool) (p : Position) : Option (Token × Position) := do
  let ((handle, suffix), p) ← tagParts? p
  if atGap p.rest || (flow && p.rest.head? = some ',') then return (.tag handle suffix, p)
  else none

def versionNumber? (p : Position) : Option (Nat × Position) :=
  let digits := p.rest.takeWhile Char.isDigit
  if digits.isEmpty || 9 < digits.length then none
  else (Word.natIn? 10 digits).map fun n => (n, p.skip digits.length)

def versionDirective? (p : Position) : Option (Token × Position) := do
  let (major, p) ← versionNumber? (p.skipWhile isSpaceOrTab)
  match p.rest with
  | '.' :: _ =>
    let (minor, p) ← versionNumber? p.next
    return (.version major minor, p)
  | _ => none

def atBlank (p : Position) : Bool :=
  (p.rest.head?.map isSpaceOrTab).getD false

def tagDirective? (p : Position) : Option (Token × Position) := do
  let (handle, p) ← handle? (p.skipWhile isSpaceOrTab)
  if !isWhole handle && handle ≠ "!" then none
  if !atBlank p then none
  let (meaning, p) ← uri? true (p.skipWhile isSpaceOrTab)
  if meaning = "" || !atGap p.rest then none
  return (.tagDirective handle meaning, p)

def directive? (p : Position) : Option (Token × Position) := do
  let name := p.next.rest.takeWhile isWordChar
  let after := p.next.skip name.length
  if !atGap after.rest then none
  let (token, p) ← if name = "YAML".toList then versionDirective? after
    else if name = "TAG".toList then tagDirective? after
    else none
  let p := (p.skipWhile isSpaceOrTab).skipComment
  match p.rest with
  | [] => return (token, p)
  | c :: _ => if endsLine c then return (token, p.nextLine) else none

end Token

end Experiment.Yaml
