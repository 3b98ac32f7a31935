import Experiment.Text

/-!
# Formatted output

Escapes and directives of `echo` and `printf`. Escapes in octal stand for single bytes, so what is
printed is bytes and not text.
-/

namespace Experiment.Shell

def octal? (c : Char) : Option Nat :=
  if '0' ≤ c && c ≤ '7' then some (c.toNat - '0'.toNat) else none

def octalValue (digits : List Char) : Nat :=
  digits.foldl (fun n c => n * 8 + (octal? c).getD 0) 0

def isOctal (c : Char) : Bool :=
  (octal? c).isSome

def escape? (c : Char) : Option UInt8 :=
  match c with
  | '\\' => some 92
  | 'a' => some 7
  | 'b' => some 8
  | 'f' => some 12
  | 'n' => some 10
  | 'r' => some 13
  | 't' => some 9
  | 'v' => some 11
  | _ => none

def bytesOf (s : String) : List UInt8 :=
  s.toUTF8.data.toList

/-- The bytes that an escape stands for, given what follows its backslash. Where `zeroLed` holds,
octal digits may follow a zero that is not one of them. -/
def escapeBytes (zeroLed : Bool) : List Char → List UInt8 × List Char
  | [] => ([92], [])
  | c :: cs =>
    if zeroLed && c = '0' then
      let digits := (cs.take 3).takeWhile isOctal
      ([(octalValue digits).toUInt8], cs.drop digits.length)
    else if isOctal c then
      let digits := ((c :: cs).take 3).takeWhile isOctal
      ([(octalValue digits).toUInt8], (c :: cs).drop digits.length)
    else
      match escape? c with
      | some b => ([b], cs)
      | none => ([92], c :: cs)

/-- A text with its escapes, and whether `\c` stopped all output. -/
def expandEscapes : Nat → List Char → List UInt8 × Bool
  | 0, _ => ([], false)
  | _ + 1, [] => ([], false)
  | fuel + 1, c :: cs =>
    if c = '\\' then
      if cs.head? = some 'c' then ([], true)
      else
        let (bytes, rest) := escapeBytes true cs
        let (more, stopped) := expandEscapes fuel rest
        (bytes ++ more, stopped)
    else
      let (more, stopped) := expandEscapes fuel cs
      (bytesOf (String.singleton c) ++ more, stopped)

def expandText (s : String) : List UInt8 × Bool :=
  expandEscapes (s.length + 1) s.toList

def echoBytes (newline : Bool) (arguments : List String) : List UInt8 :=
  let (bytes, stopped) := expandText (Text.joinWith " " arguments)
  if stopped || !newline then bytes else bytes ++ [10]

/-- How an argument is printed: its width, the side it stands on, what fills the rest and how much
of it is taken. -/
structure Directive where
  left : Bool
  zeros : Bool
  width : Nat
  precision : Option Nat
  conversion : Char

def numberOf (digits : List Char) : Nat :=
  digits.foldl (fun n c => n * 10 + (c.toNat - '0'.toNat)) 0

def directive? (cs : List Char) : Option (Directive × List Char) :=
  let flags := cs.takeWhile fun c => c = '-' || c = '0' || c = ' ' || c = '+'
  let rest := cs.drop flags.length
  let width := rest.takeWhile Char.isDigit
  let rest := rest.drop width.length
  let (precision, rest) := match rest with
    | '.' :: rest =>
      let digits := rest.takeWhile Char.isDigit
      (some (numberOf digits), rest.drop digits.length)
    | rest => (none, rest)
  match rest with
  | [] => none
  | c :: rest => some (⟨flags.contains '-', flags.contains '0', numberOf width, precision, c⟩, rest)

namespace Directive

def pad (d : Directive) (zeros : Bool) (bytes : List UInt8) : List UInt8 :=
  let missing := d.width - bytes.length
  if d.left then bytes ++ List.replicate missing 32
  else List.replicate missing (if zeros && d.zeros then 48 else 32) ++ bytes

def integerOf (argument : String) : Int :=
  argument.toInt?.getD 0

def unsignedText (base : Nat) (i : Int) : List Char :=
  Nat.toDigits base (i % 0x10000000000000000).toNat

def print? (d : Directive) (argument : String) : Option (List UInt8) :=
  let text (cs : List Char) := d.pad true (bytesOf (String.ofList cs))
  match d.conversion with
  | 's' =>
    let bytes := bytesOf argument
    some (d.pad false (match d.precision with | some n => bytes.take n | none => bytes))
  | 'c' => some (d.pad false (bytesOf (String.ofList (argument.toList.take 1))))
  | 'd' | 'i' => some (text (toString (integerOf argument)).toList)
  | 'u' => some (text (unsignedText 10 (integerOf argument)))
  | 'o' => some (text (unsignedText 8 (integerOf argument)))
  | 'x' => some (text (unsignedText 16 (integerOf argument)))
  | 'X' => some (text ((unsignedText 16 (integerOf argument)).map Char.toUpper))
  | _ => none

end Directive

/-- One pass over a format: the bytes, the arguments that are left, whether one was asked for and
whether `\c` stopped all output. -/
def formatOnce : Nat → List Char → List String → Bool → List UInt8 × List String × Bool × Bool
  | 0, _, arguments, asked => ([], arguments, asked, false)
  | _ + 1, [], arguments, asked => ([], arguments, asked, false)
  | fuel + 1, c :: cs, arguments, asked =>
    let emit (bytes : List UInt8) (rest : List Char) (arguments : List String) (asked : Bool) :=
      let (more, left, asked, stopped) := formatOnce fuel rest arguments asked
      (bytes ++ more, left, asked, stopped)
    let argument := arguments.headD ""
    if c = '\\' then
      let (bytes, rest) := escapeBytes false cs
      emit bytes rest arguments asked
    else if c = '%' then
      match cs with
      | '%' :: rest => emit [37] rest arguments asked
      | 'b' :: rest =>
        let (bytes, stopped) := expandText argument
        if stopped then (bytes, arguments.drop 1, true, true)
        else emit bytes rest (arguments.drop 1) true
      | _ =>
        match directive? cs with
        | none => emit [37] cs arguments asked
        | some (d, rest) =>
          match d.print? argument with
          | some bytes => emit bytes rest (arguments.drop 1) true
          | none => emit [37] cs arguments asked
    else emit (bytesOf (String.singleton c)) cs arguments asked

/-- The format is used again as long as it asks for arguments and some are left. -/
def formatAll : Nat → List Char → List String → List UInt8
  | 0, _, _ => []
  | fuel + 1, format, arguments =>
    let (bytes, left, asked, stopped) := formatOnce (format.length + 1) format arguments false
    if stopped || !asked || left.isEmpty then bytes else bytes ++ formatAll fuel format left

def printfBytes (format : String) (arguments : List String) : List UInt8 :=
  formatAll (arguments.length + 1) format.toList arguments

end Experiment.Shell
