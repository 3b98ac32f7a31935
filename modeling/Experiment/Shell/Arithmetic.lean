import Experiment.Document
import Experiment.Text

/-!
# Arithmetic of the shell

Expressions over integers of 64 bits, with operators on numbers and bits, comparisons, choices,
variables and brackets. A comparison gives one or zero.
-/

namespace Experiment.Shell.Arithmetic

inductive Lexeme where
  | number (value : Int)
  | name (text : String)
  | mark (text : String)
deriving DecidableEq

def marks : List (List Char) :=
  [['|', '|'], ['&', '&'], ['=', '='], ['!', '='], ['<', '='], ['>', '='], ['<', '<'], ['>', '>'],
    ['|'], ['^'], ['&'], ['<'], ['>'], ['+'], ['-'], ['*'], ['/'], ['%'], ['!'], ['~'], ['('],
    [')'], ['?'], [':']]

/-- A number in base 10, 16 after `0x` or 8 after another zero. -/
def number? (cs : List Char) : Option Nat :=
  match cs with
  | '0' :: 'x' :: rest => Word.natIn? 16 rest
  | '0' :: c :: rest => Word.natIn? 8 (c :: rest)
  | cs => Word.natIn? 10 cs

def isNameChar (c : Char) : Bool :=
  c.isAlphanum || c = '_'

def lex : Nat → List Char → Option (List Lexeme)
  | 0, _ => some []
  | _ + 1, [] => some []
  | fuel + 1, c :: cs =>
    if c = ' ' || c = '\t' || c = '\n' then lex fuel cs
    else if isNameChar c then do
      let word := c :: cs.takeWhile isNameChar
      let first ← if c.isDigit then (number? word).map fun n => Lexeme.number n
        else some (.name (String.ofList word))
      return first :: (← lex fuel (cs.dropWhile isNameChar))
    else do
      let m ← marks.find? fun m => Text.startsWith m (c :: cs)
      return .mark (String.ofList m) :: (← lex fuel (cs.drop (m.length - 1)))

def levels : List (List String) :=
  [["||"], ["&&"], ["|"], ["^"], ["&"], ["==", "!="], ["<=", ">=", "<", ">"], ["<<", ">>"],
    ["+", "-"], ["*", "/", "%"]]

/-- The integer of 64 bits that differs by a multiple of their number. -/
def wrap (i : Int) : Int :=
  i.bmod 0x10000000000000000

def ofBool (b : Bool) : Int :=
  if b then 1 else 0

def word (i : Int) : Nat :=
  (i % 0x10000000000000000).toNat

def compute? (mark : String) (a b : Int) : Option Int :=
  match mark with
  | "||" => some (ofBool (a ≠ 0 || b ≠ 0))
  | "&&" => some (ofBool (a ≠ 0 && b ≠ 0))
  | "|" => some (wrap (word a ||| word b : Nat))
  | "^" => some (wrap (word a ^^^ word b : Nat))
  | "&" => some (wrap (word a &&& word b : Nat))
  | "==" => some (ofBool (a = b))
  | "!=" => some (ofBool (a ≠ b))
  | "<=" => some (ofBool (a ≤ b))
  | ">=" => some (ofBool (b ≤ a))
  | "<" => some (ofBool (a < b))
  | ">" => some (ofBool (b < a))
  | "<<" => some (wrap (a * (Nat.pow 2 (word b % 64) : Nat)))
  | ">>" => some (a / (Nat.pow 2 (word b % 64) : Nat))
  | "+" => some (wrap (a + b))
  | "-" => some (wrap (a - b))
  | "*" => some (wrap (a * b))
  | "/" => if b = 0 then none else some (wrap (a.tdiv b))
  | "%" => if b = 0 then none else some (a.tmod b)
  | _ => none

/-- The number that the value of a variable stands for; no value is zero. -/
def valueOf? (text : String) : Option Int :=
  match Text.trimChars text.toList with
  | [] => some 0
  | '-' :: cs => (number? cs).map fun n => -(n : Int)
  | '+' :: cs => (number? cs).map fun n => (n : Int)
  | cs => (number? cs).map fun n => (n : Int)

mutual

def readLevel (value : String → String) (fuel : Nat) (operators : List (List String))
    (ts : List Lexeme) : Option (Int × List Lexeme) :=
  match fuel with
  | 0 => none
  | fuel + 1 =>
    match operators with
    | [] => readOperand value fuel ts
    | here :: tighter => do
      let (a, ts) ← readLevel value fuel tighter ts
      readRest value fuel here tighter a ts

def readRest (value : String → String) (fuel : Nat) (here : List String)
    (tighter : List (List String)) (a : Int) (ts : List Lexeme) : Option (Int × List Lexeme) :=
  match fuel with
  | 0 => none
  | fuel + 1 =>
    match ts with
    | .mark m :: rest =>
      if m ∈ here then do
        let (b, rest) ← readLevel value fuel tighter rest
        readRest value fuel here tighter (← compute? m a b) rest
      else some (a, ts)
    | _ => some (a, ts)

def readOperand (value : String → String) (fuel : Nat) (ts : List Lexeme) :
    Option (Int × List Lexeme) :=
  match fuel with
  | 0 => none
  | fuel + 1 =>
    match ts with
    | .number n :: rest => some (wrap n, rest)
    | .name x :: rest => (valueOf? (value x)).map fun n => (wrap n, rest)
    | .mark "-" :: rest => (readOperand value fuel rest).map fun p => (wrap (-p.1), p.2)
    | .mark "+" :: rest => readOperand value fuel rest
    | .mark "!" :: rest => (readOperand value fuel rest).map fun p => (ofBool (p.1 = 0), p.2)
    | .mark "~" :: rest => (readOperand value fuel rest).map fun p => (-p.1 - 1, p.2)
    | .mark "(" :: rest =>
      match readChoice value fuel rest with
      | some (n, .mark ")" :: rest) => some (n, rest)
      | _ => none
    | _ => none

def readChoice (value : String → String) (fuel : Nat) (ts : List Lexeme) :
    Option (Int × List Lexeme) :=
  match fuel with
  | 0 => none
  | fuel + 1 =>
    match readLevel value fuel levels ts with
    | some (test, .mark "?" :: rest) =>
      match readChoice value fuel rest with
      | some (yes, .mark ":" :: rest) =>
        (readChoice value fuel rest).map fun p => (if test = 0 then p.1 else yes, p.2)
      | _ => none
    | found => found

end

def evaluate (value : String → String) (expression : String) : Option Int := do
  let ts ← lex (expression.length + 1) expression.toList
  match ts with
  | [] => some 0
  | ts =>
    match readChoice value (16 * ts.length + 16) ts with
    | some (n, []) => some n
    | _ => none

end Experiment.Shell.Arithmetic
