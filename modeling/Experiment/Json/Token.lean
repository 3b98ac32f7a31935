import Experiment.Json.Basic

/-!
# The tokens of JSON text

`Token.scan` cuts a text into tokens. A string that holds half of a surrogate pair and a number
beyond the range of doubles are `unreadable`: they may stand where nobody looks, and nowhere else.
-/

namespace Experiment.Json

inductive Token where
  | openBracket
  | closeBracket
  | openBrace
  | closeBrace
  | comma
  | colon
  | null
  | bool (value : Bool)
  | number (value : Number)
  | string (value : String)
  | unreadableString
  | unreadableNumber
deriving DecidableEq

namespace Token

def isBlank (c : Char) : Bool :=
  c = ' ' || c = '\n' || c = '\r' || c = '\t'

def digit? (c : Char) : Option Nat :=
  if c.isDigit then some (c.toNat - '0'.toNat) else none

def hex? (c : Char) : Option Nat :=
  if c.isDigit then some (c.toNat - '0'.toNat)
  else if 'a' ≤ c && c ≤ 'f' then some (c.toNat - 'a'.toNat + 10)
  else if 'A' ≤ c && c ≤ 'F' then some (c.toNat - 'A'.toNat + 10)
  else none

def hexFour? : List Char → Option (Nat × List Char)
  | a :: b :: c :: d :: rest => do
    let a ← hex? a
    let b ← hex? b
    let c ← hex? c
    let d ← hex? d
    return (((a * 16 + b) * 16 + c) * 16 + d, rest)
  | _ => none

def simpleEscape? (c : Char) : Option Char :=
  match c with
  | '"' => some '"'
  | '\\' => some '\\'
  | '/' => some '/'
  | 'b' => some '\x08'
  | 'f' => some '\x0c'
  | 'n' => some '\n'
  | 'r' => some '\r'
  | 't' => some '\t'
  | _ => none

/-- The text after an opening quote, `none` in it if half of a surrogate pair was seen. The
characters read so far are kept in reverse. -/
def scanString : Nat → List Char → Bool → List Char → Option (Option String × List Char)
  | 0, _, _, _ => none
  | _ + 1, [], _, _ => none
  | fuel + 1, c :: rest, readable, read =>
    if c = '"' then
      some (if readable then some (String.ofList read.reverse) else none, rest)
    else if c = '\\' then
      match rest with
      | [] => none
      | e :: rest =>
        if e = 'u' then
          match hexFour? rest with
          | none => none
          | some (n, rest) =>
            if 0xDC00 ≤ n && n ≤ 0xDFFF then scanString fuel rest false read
            else if 0xD800 ≤ n && n ≤ 0xDBFF then
              match rest with
              | '\\' :: 'u' :: more =>
                match hexFour? more with
                | none => none
                | some (m, more) =>
                  if 0xDC00 ≤ m && m ≤ 0xDFFF then
                    let code := 0x10000 + (n - 0xD800) * 0x400 + (m - 0xDC00)
                    scanString fuel more readable (Char.ofNat code :: read)
                  else scanString fuel more false read
              | _ => scanString fuel rest false read
            else scanString fuel rest readable (Char.ofNat n :: read)
        else
          match simpleEscape? e with
          | none => none
          | some c => scanString fuel rest readable (c :: read)
    else if c.toNat < 0x20 then none
    else scanString fuel rest readable (c :: read)

/-- A number as it is written: sign, digits before and after the point, and exponent. -/
structure Lexeme where
  negative : Bool
  whole : List Nat
  fraction : Option (List Nat)
  exponent : Option (Bool × List Nat)

def spanDigits : List Char → List Nat × List Char
  | [] => ([], [])
  | c :: rest =>
    match digit? c with
    | some d => ((d :: (spanDigits rest).1), (spanDigits rest).2)
    | none => ([], c :: rest)

def scanFraction (cs : List Char) : Option (Option (List Nat) × List Char) :=
  match cs with
  | '.' :: rest =>
    match spanDigits rest with
    | ([], _) => none
    | (ds, rest) => some (some ds, rest)
  | _ => some (none, cs)

def scanExponent (cs : List Char) : Option (Option (Bool × List Nat) × List Char) :=
  match cs with
  | c :: rest =>
    if c = 'e' || c = 'E' then
      let (negative, rest) := match rest with
        | '-' :: rest => (true, rest)
        | '+' :: rest => (false, rest)
        | rest => (false, rest)
      match spanDigits rest with
      | ([], _) => none
      | (ds, rest) => some (some (negative, ds), rest)
    else some (none, cs)
  | [] => some (none, [])

def scanLexeme (cs : List Char) : Option (Lexeme × List Char) := do
  let (negative, cs) := match cs with
    | '-' :: rest => (true, rest)
    | cs => (false, cs)
  let (whole, cs) ← match spanDigits cs with
    | ([], _) => none
    | (0 :: _ :: _, _) => none
    | found => some found
  let (fraction, cs) ← scanFraction cs
  let (exponent, cs) ← scanExponent cs
  return (⟨negative, whole, fraction, exponent⟩, cs)

/-- Digits are taken into a word of 64 bits as long as they fit; the count says how many did. -/
def takeDigits (word : Nat) : List Nat → Nat × Nat
  | [] => (word, 0)
  | d :: ds =>
    if word * 10 + d < 0x10000000000000000 then
      let (w, n) := takeDigits (word * 10 + d) ds
      (w, n + 1)
    else (word, 0)

def digitsValue (ds : List Nat) : Nat :=
  ds.foldl (fun n d => n * 10 + d) 0

/-- `f · 10 ^ exponent` by one multiplication or by divisions of at most `1e308` each. -/
def scaleFloat : Nat → Float → Int → Option Float
  | 0, f, _ => some f
  | fuel + 1, f, exponent =>
    if exponent.natAbs ≤ 308 then
      let power := Float.ofScientific 1 false exponent.natAbs
      if 0 ≤ exponent then
        let g := f * power
        if g.isInf then none else some g
      else some (f / power)
    else if f == 0 then some f
    else if 0 ≤ exponent then none
    else scaleFloat fuel (f / Float.ofScientific 1 false 308) (exponent + 308)

/-- The double that a lexeme stands for: the leading digits that fit a word of 64 bits, scaled by
the power of ten that the places of all other digits and the exponent give. -/
def Lexeme.toFloat? (l : Lexeme) : Option Float :=
  let (word, taken) := takeDigits 0 l.whole
  let skipped := l.whole.length - taken
  let (word, after) := takeDigits word (l.fraction.getD [])
  let places : Int := skipped - after
  let magnitude := word.toUInt64.toFloat
  let unsigned := match l.exponent with
    | none => scaleFloat 8 magnitude places
    | some (negative, ds) =>
      if digitsValue ds < 0x80000000 then
        scaleFloat 8 magnitude
          (if negative then places - digitsValue ds else places + digitsValue ds)
      else if word ≠ 0 && !negative then none
      else some 0
  unsigned.map fun f => if l.negative then -f else f

/-- Whole numbers of 64 bits are integers, all others doubles; so is minus zero. -/
def Lexeme.toNumber? (l : Lexeme) : Option Number :=
  let whole := digitsValue l.whole
  if l.fraction.isNone && l.exponent.isNone && !l.negative && whole < 0x10000000000000000 then
    some (.int whole)
  else if l.fraction.isNone && l.exponent.isNone && l.negative && whole ≠ 0
      && whole ≤ 0x8000000000000000 then
    some (.int (-whole))
  else l.toFloat?.map fun f => .float f.toBits

def dropWord : List Char → List Char → Option (List Char)
  | [], rest => some rest
  | w :: ws, c :: cs => if w = c then dropWord ws cs else none
  | _ :: _, [] => none

def first? (c : Char) (rest : List Char) : Option (Token × List Char) :=
  match c with
  | '[' => some (.openBracket, rest)
  | ']' => some (.closeBracket, rest)
  | '{' => some (.openBrace, rest)
  | '}' => some (.closeBrace, rest)
  | ',' => some (.comma, rest)
  | ':' => some (.colon, rest)
  | 'n' => (dropWord ['u', 'l', 'l'] rest).map fun r => (.null, r)
  | 't' => (dropWord ['r', 'u', 'e'] rest).map fun r => (.bool true, r)
  | 'f' => (dropWord ['a', 'l', 's', 'e'] rest).map fun r => (.bool false, r)
  | '"' =>
    (scanString (rest.length + 1) rest true []).map fun p =>
      (match p.1 with | some s => .string s | none => .unreadableString, p.2)
  | c =>
    (scanLexeme (c :: rest)).map fun p =>
      (match p.1.toNumber? with | some n => .number n | none => .unreadableNumber, p.2)

def scanFuel : Nat → List Char → Option (List Token)
  | _, [] => some []
  | 0, _ :: _ => none
  | fuel + 1, c :: rest =>
    if isBlank c then scanFuel fuel rest
    else do
      let (t, rest) ← first? c rest
      let ts ← scanFuel fuel rest
      return t :: ts

def scan (cs : List Char) : Option (List Token) :=
  scanFuel cs.length cs

end Token

end Experiment.Json
