import Experiment.Json.Token

/-!
# Documents

A `Document` is what a text says before anyone knows which types it is meant to have. Repeated keys
are still there, and so are parts that only matter if they are looked at. `Document.toJson?` reads a
document as a JSON value.
-/

namespace Experiment

inductive Resolution where
  | inferred
  | text
  | bool
  | int
  | float
  | null
deriving DecidableEq

structure Word where
  text : String
  resolution : Resolution
  /-- Written without quotes. -/
  plain : Bool
deriving DecidableEq

inductive Document where
  | null
  | bool (value : Bool)
  | number (value : Number)
  | string (value : String)
  /-- Accepted where nobody looks. -/
  | unreadable
  | word (value : Word)
  /-- Content under a name of the author's own. -/
  | tagged (name : String) (content : Document)
  | sequence (items : List Document)
  /-- A key that is no text is `none`. -/
  | mapping (entries : List (Option String × Document))
deriving Inhabited

namespace Word

def isNull (text : String) : Bool :=
  text = "null" || text = "Null" || text = "NULL" || text = "~"

def bool? (text : String) : Option Bool :=
  if text = "true" || text = "True" || text = "TRUE" then some true
  else if text = "false" || text = "False" || text = "FALSE" then some false
  else none

def digitIn? (base : Nat) (c : Char) : Option Nat :=
  match Json.Token.hex? c with
  | some d => if d < base then some d else none
  | none => none

def foldDigits (base : Nat) : Nat → List Char → Option Nat
  | n, [] => some n
  | n, c :: cs =>
    match digitIn? base c with
    | some d => foldDigits base (n * base + d) cs
    | none => none

def natIn? (base : Nat) (cs : List Char) : Option Nat :=
  if cs.isEmpty then none else foldDigits base 0 cs

/-- Leading zeros before further digits make a text of a number. -/
def zeroLed (cs : List Char) : Bool :=
  let cs := match cs with
    | '-' :: rest => rest
    | '+' :: rest => rest
    | cs => cs
  match cs with
  | '0' :: c :: rest => (c :: rest).all Char.isDigit
  | _ => false

/-- The digits after a mark of their base, or all of them. -/
def based? (cs : List Char) : Option Nat :=
  match cs with
  | '0' :: 'x' :: rest => natIn? 16 rest
  | '0' :: 'o' :: rest => natIn? 8 rest
  | '0' :: 'b' :: rest => natIn? 2 rest
  | _ => none

def nat? (cs : List Char) : Option Nat :=
  let unsigned := match cs with
    | '+' :: rest => rest
    | cs => cs
  match based? unsigned with
  | some n => some n
  | none => if zeroLed cs then none else natIn? 10 unsigned

def negative? (cs : List Char) : Option Int :=
  match cs with
  | '-' :: rest =>
    match based? rest with
    | some n => some (-n)
    | none => if zeroLed cs then none else (natIn? 10 rest).map fun n => -(n : Int)
  | _ => none

def int? (cs : List Char) : Option Int :=
  match nat? cs with
  | some n => some n
  | none => negative? cs

def decimalParts? (cs : List Char) : Option (Nat × Int) :=
  let (whole, rest) := Json.Token.spanDigits cs
  let (fraction, rest) := match rest with
    | '.' :: rest => Json.Token.spanDigits rest
    | rest => ([], rest)
  if whole.isEmpty && fraction.isEmpty then none
  else
    let digits := Json.Token.digitsValue (whole ++ fraction)
    match Json.Token.scanExponent rest with
    | some (none, []) => some (digits, -(fraction.length : Int))
    | some (some (negative, ds), []) =>
      let e : Int := Json.Token.digitsValue ds
      some (digits, (if negative then -e else e) - fraction.length)
    | _ => none

def scientific (digits : Nat) (exponent : Int) : Float :=
  if digits = 0 then 0
  else if 400 < exponent then 1 / 0
  else if exponent < -(Nat.log2 digits + 400) then 0
  else Float.ofScientific digits (exponent < 0) exponent.natAbs

def unsignedFloat? (cs : List Char) : Option Float :=
  (decimalParts? cs).map fun p => scientific p.1 p.2

/-- Infinities and what is no number are found, and are then no JSON numbers. -/
def float? (cs : List Char) : Option Float :=
  let text := String.ofList cs
  let bare := match cs with
    | '+' :: rest => rest
    | cs => cs
  if ['.', 'i', 'n', 'f'] = bare || ['.', 'I', 'n', 'f'] = bare || ['.', 'I', 'N', 'F'] = bare then
    some (1 / 0)
  else if text = "-.inf" || text = "-.Inf" || text = "-.INF" then some (-1 / 0)
  else if text = ".nan" || text = ".NaN" || text = ".NAN" then some (0 / 0)
  else
    let found := match cs with
      | '+' :: rest => unsignedFloat? rest
      | '-' :: rest => (unsignedFloat? rest).map fun f => -f
      | _ => unsignedFloat? cs
    match found with
    | some f => if f.isFinite then some f else none
    | none => none

def floatJson (f : Float) : Json :=
  if f.isFinite then .number (.float f.toBits) else .null

/-- An integer of more than 64 and at most 128 bits is refused. -/
def intJson? (i : Int) : Option Json :=
  if Number.fits i then some (.number (.int i)) else none

/-- The integers of 128 bits. -/
def wideInt? (cs : List Char) : Option Int :=
  match int? cs with
  | some i => if -0x80000000000000000000000000000000 ≤ i
      && i < 0x100000000000000000000000000000000 then some i else none
  | none => none

def inferred? (text : String) : Option Json :=
  let cs := text.toList
  if text = "" || isNull text then some .null
  else
    match bool? text with
    | some b => some (.bool b)
    | none =>
      match wideInt? cs with
      | some i => intJson? i
      | none =>
        if zeroLed cs then some (.string text)
        else
          match float? cs with
          | some f => some (floatJson f)
          | none => some (.string text)

/-- Would the bare text be read as something else than a text? -/
def isTyped (text : String) : Bool :=
  let cs := text.toList
  text = "" || isNull text || (bool? text).isSome || (wideInt? cs).isSome || zeroLed cs
    || (float? cs).isSome

def toJson? (w : Word) : Option Json :=
  match w.resolution with
  | .inferred => inferred? w.text
  | .text => some (.string w.text)
  | .bool => (bool? w.text).map Json.bool
  | .int => (wideInt? w.text.toList).bind intJson?
  | .float => (float? w.text.toList).map floatJson
  | .null => if isNull w.text then some .null else none

end Word

namespace Document

mutual
/-- At most `levels` sequences and mappings may lie inside one another. -/
def toJson? (levels : Nat) : Document → Option Json
  | .null => some .null
  | .bool b => some (.bool b)
  | .number n => some (.number n)
  | .string s => some (.string s)
  | .unreadable => none
  | .word w => w.toJson?
  | .tagged _ _ => none
  | .sequence items =>
    match levels with
    | 0 => none
    | levels + 1 => (itemsToJson? levels items).map Json.array
  | .mapping entries =>
    match levels with
    | 0 => none
    | levels + 1 =>
      (entriesToJson? levels entries).map fun fields => Json.object (OrderedMap.ofPairs fields)

def itemsToJson? (levels : Nat) : List Document → Option (List Json)
  | [] => some []
  | d :: ds => do
    let v ← toJson? levels d
    let vs ← itemsToJson? levels ds
    return v :: vs

def entriesToJson? (levels : Nat) :
    List (Option String × Document) → Option (List (String × Json))
  | [] => some []
  | (key, d) :: rest => do
    let key ← key
    let v ← toJson? levels d
    let fields ← entriesToJson? levels rest
    return (key, v) :: fields
end

mutual
def ofJson : Json → Document
  | .null => .null
  | .bool b => .bool b
  | .number n => .number n
  | .string s => .string s
  | .array items => .sequence (itemsOfJson items)
  | .object fields => .mapping (entriesOfJson fields)

def itemsOfJson : List Json → List Document
  | [] => []
  | v :: vs => ofJson v :: itemsOfJson vs

def entriesOfJson : List (String × Json) → List (Option String × Document)
  | [] => []
  | (k, v) :: fs => (some k, ofJson v) :: entriesOfJson fs
end

end Document

end Experiment
