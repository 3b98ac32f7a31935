import Experiment.Document
import Experiment.Timestamp
import Experiment.Toml.Text

/-!
# Numbers and moments of TOML

A moment is a date, a time, or both with an offset. It is none of the values that the other
notations have, and counts as a record without known fields.
-/

namespace Experiment.Toml

def decimalOf (digits : List Char) : Nat :=
  (Word.natIn? 10 digits).getD 0

def spanDigits (isDigit : Char → Bool) : List Char → List Char × List Char
  | [] => ([], [])
  | c :: cs =>
    if isDigit c then
      match cs with
      | '_' :: d :: rest =>
        if isDigit d then
          let (more, rest) := spanDigits isDigit (d :: rest)
          (c :: more, rest)
        else ([c], cs)
      | cs =>
        let (more, rest) := spanDigits isDigit cs
        (c :: more, rest)
    else ([], c :: cs)

def inRange (i : Int) : Bool :=
  -0x8000000000000000 ≤ i && i < 0x8000000000000000

def basedInteger? (base : Nat) (cs : List Char) : Option (Document × List Char) :=
  let (digits, rest) := spanDigits (fun c => (Word.digitIn? base c).isSome) cs
  match Word.natIn? base digits with
  | some n => if inRange n then some (.number (.int n), rest) else none
  | none => none

def splitSign : List Char → Bool × List Char
  | '-' :: rest => (true, rest)
  | '+' :: rest => (false, rest)
  | cs => (false, cs)

/-- The digits before a point: a zero alone, or digits that begin with none. -/
def wholeDigits (cs : List Char) : List Char × List Char :=
  match cs with
  | '0' :: rest => (['0'], rest)
  | cs => spanDigits Char.isDigit cs

def fraction? (cs : List Char) : Option (List Char × List Char) :=
  match cs with
  | '.' :: rest =>
    let (digits, rest) := spanDigits Char.isDigit rest
    if digits.isEmpty then none else some (digits, rest)
  | cs => some ([], cs)

def exponent? (cs : List Char) : Option (Int × List Char) :=
  match cs with
  | c :: rest =>
    if c = 'e' || c = 'E' then
      let (negative, rest) := splitSign rest
      let (digits, rest) := spanDigits Char.isDigit rest
      if digits.isEmpty then none
      else
        let n : Int := decimalOf digits
        some (if negative then -n else n, rest)
    else some (0, cs)
  | [] => some (0, [])

def signed (negative : Bool) (f : Float) : Float :=
  if negative then -f else f

/-- A float beyond the range of doubles is refused unless it is negative. -/
def decimal? (cs : List Char) : Option (Document × List Char) := do
  let (negative, unsigned) := splitSign cs
  let (whole, rest) := wholeDigits unsigned
  if whole.isEmpty then none
  let (places, afterPlaces) ← fraction? rest
  let (exponent, left) ← exponent? afterPlaces
  if left.length = rest.length then
    let n : Int := decimalOf whole
    let i := if negative then -n else n
    if inRange i then return (.number (.int i), left) else none
  else
    let f := signed negative
      (Word.scientific (decimalOf (whole ++ places)) (exponent - places.length))
    if f.isInf && !negative then none
    else return (.number (.float f.toBits), left)

def special? (cs : List Char) : Option (Document × List Char) :=
  let (_, unsigned) := splitSign cs
  match Text.afterStart? "inf".toList unsigned with
  | some rest => some (.unreadable, rest)
  | none => (Text.afterStart? "nan".toList unsigned).map fun rest => (.unreadable, rest)

def number? (cs : List Char) : Option (Document × List Char) :=
  match cs with
  | '0' :: 'x' :: rest => basedInteger? 16 rest
  | '0' :: 'o' :: rest => basedInteger? 8 rest
  | '0' :: 'b' :: rest => basedInteger? 2 rest
  | cs =>
    match special? cs with
    | some found => some found
    | none => decimal? cs

def fixedDigits? (width : Nat) (cs : List Char) : Option (Nat × List Char) :=
  let digits := (cs.take width).takeWhile Char.isDigit
  if digits.length = width then some (decimalOf digits, cs.drop width) else none

def within (low high n : Nat) : Option Unit :=
  if low ≤ n && n ≤ high then some () else none

def mark? (c : Char) : List Char → Option (List Char)
  | d :: rest => if c = d then some rest else none
  | [] => none

def date? (cs : List Char) : Option (List Char) := do
  let (year, cs) ← fixedDigits? 4 cs
  let (month, cs) ← fixedDigits? 2 (← mark? '-' cs)
  let (day, cs) ← fixedDigits? 2 (← mark? '-' cs)
  within 1 12 month
  within 1 (Timestamp.daysIn year month) day
  return cs

def time? (cs : List Char) : Option (List Char) := do
  let (hour, cs) ← fixedDigits? 2 cs
  let (minute, cs) ← fixedDigits? 2 (← mark? ':' cs)
  let (second, cs) ← fixedDigits? 2 (← mark? ':' cs)
  within 0 23 hour
  within 0 59 minute
  within 0 60 second
  match cs with
  | '.' :: rest =>
    let digits := rest.takeWhile Char.isDigit
    if digits.isEmpty then none else return rest.drop digits.length
  | cs => return cs

def offset? (cs : List Char) : Option (List Char) :=
  match cs with
  | c :: rest =>
    if c = 'Z' || c = 'z' then some rest
    else if c = '+' || c = '-' then do
      let (hours, rest) ← fixedDigits? 2 rest
      let (minutes, rest) ← fixedDigits? 2 (← mark? ':' rest)
      within 0 23 hours
      within 0 59 minutes
      return rest
    else some cs
  | [] => some []

def startsMoment (cs : List Char) : Bool :=
  let digits := (cs.takeWhile Char.isDigit).length
  (digits = 4 && cs[4]? = some '-') || (digits = 2 && cs[2]? = some ':')

/-- A time may follow a date after a `T` or a blank; a blank alone ends the date. -/
def momentEnd? (cs : List Char) : Option (List Char) :=
  if cs[2]? = some ':' then time? cs
  else do
    let rest ← date? cs
    match rest with
    | c :: after =>
      if c = 'T' || c = 't' then offset? (← time? after)
      else if c = ' ' && (after.head?.map Char.isDigit).getD false then offset? (← time? after)
      else return rest
    | [] => return []

def moment? (cs : List Char) : Option (Document × List Char) :=
  (momentEnd? cs).map fun rest =>
    (.mapping [(some "", .string (String.ofList (cs.take (cs.length - rest.length))))], rest)

end Experiment.Toml
