import Experiment.Document
import Experiment.Json.Writer

/-!
# Writing YAML

Mappings and sequences are written in block form, a sequence under a key at the indentation of the
key. A text is written bare if it is then read as the same text, else in single quotes, as a literal
block if it has line ends, and in double quotes if characters have to be escaped.
-/

namespace Experiment.Yaml

def floatLayout : Decimal.Layout where
  positiveMark := ['e']
  lowest := -5
  highest := 16

def isBreak (c : Char) : Bool :=
  c = '\n' || c = '\r' || c = '\u0085' || c = '\u2028' || c = '\u2029'

def isPrintable (c : Char) : Bool :=
  let n := c.toNat
  n = 0x0A || (0x20 ≤ n && n ≤ 0x7E) || (0xA0 ≤ n && n ≤ 0xD7FF)
    || (0xE000 ≤ n && n ≤ 0xFFFD && n ≠ 0xFEFF) || 0x10000 ≤ n

def endsWord : List Char → Bool
  | [] => true
  | c :: _ => c = ' ' || c = '\t' || isBreak c || c = '\x00'

structure Shape where
  /-- Marks of the notation that would be taken for such. -/
  indicators : Bool := false
  multiline : Bool := false
  special : Bool := false
  leadingSpace : Bool := false
  leadingBreak : Bool := false
  trailingSpace : Bool := false
  trailingBreak : Bool := false
  breakSpace : Bool := false
  spaceBreak : Bool := false

def startIndicators : List Char :=
  ['#', ',', '[', ']', '{', '}', '&', '*', '!', '|', '>', Char.ofNat 0x27, '"', '%', '@',
    Char.ofNat 0x60]

def startsIndicator (c : Char) (rest : List Char) : Bool :=
  startIndicators.contains c || ((c = '?' || c = ':' || c = '-') && endsWord rest)

def innerIndicator (before c : Char) (rest : List Char) : Bool :=
  (c = ':' && endsWord rest) || (c = '#' && endsWord [before])

def innerIndicators : Char → List Char → Bool
  | _, [] => false
  | before, c :: rest => innerIndicator before c rest || innerIndicators c rest

def adjacent (p q : Char → Bool) : List Char → Bool
  | a :: b :: rest => (p a && q b) || adjacent p q (b :: rest)
  | _ => false

def isSpace (c : Char) : Bool :=
  c = ' '

def Shape.of (cs : List Char) : Shape :=
  match cs with
  | [] => {}
  | c :: rest =>
    let last := (c :: rest).getLast?
    { indicators := cs.take 3 = ['-', '-', '-'] || cs.take 3 = ['.', '.', '.']
        || startsIndicator c rest || innerIndicators c rest
      multiline := cs.any isBreak
      special := cs.any fun c => !isPrintable c
      leadingSpace := isSpace c
      leadingBreak := isBreak c
      trailingSpace := last.any isSpace
      trailingBreak := last.any isBreak
      breakSpace := adjacent isBreak isSpace cs
      spaceBreak := adjacent isSpace isBreak cs }

namespace Shape

def plainAllowed (s : Shape) : Bool :=
  !(s.leadingSpace || s.leadingBreak || s.trailingSpace || s.trailingBreak || s.breakSpace
    || s.spaceBreak || s.special || s.multiline || s.indicators)

def singleAllowed (s : Shape) : Bool :=
  !(s.breakSpace || s.spaceBreak || s.special)

def blockAllowed (s : Shape) : Bool :=
  !(s.trailingSpace || s.spaceBreak || s.special)

end Shape

inductive Style where
  | plain
  | single
  | double
  | literal
deriving DecidableEq

def quotedStyle (s : Shape) : Style :=
  if s.singleAllowed then .single else .double

/-- The form of a text; a literal block cannot be a key on the line of its value. -/
def Style.ofText (text : String) (simpleKey : Bool) : Style :=
  let s := Shape.of text.toList
  if simpleKey && s.multiline then .double
  else if text.toList.contains '\n' then
    if s.blockAllowed && !simpleKey then .literal else .double
  else if Word.isTyped text then quotedStyle s
  else if s.plainAllowed then .plain
  else quotedStyle s

/-- What has been written, in reverse, and where the pen stands. -/
structure Pen where
  written : List Char := []
  column : Nat := 0
  /-- A blank or nothing stands before the pen on its line. -/
  afterBlank : Bool := true
  /-- Only indentation and marks of items stand before the pen on its line. -/
  indenting : Bool := true

namespace Pen

def put (p : Pen) (c : Char) : Pen :=
  { p with written := c :: p.written, column := p.column + 1 }

def putBreak (p : Pen) (c : Char) : Pen :=
  { p with written := c :: p.written, column := 0 }

def putAll (p : Pen) (cs : List Char) : Pen :=
  cs.foldl put p

def newLine (p : Pen) (indent : Nat) : Pen :=
  let p :=
    if !p.indenting || indent < p.column || (p.column = indent && !p.afterBlank) then
      p.putBreak '\n'
    else p
  let p := p.putAll (List.replicate (indent - p.column) ' ')
  { p with afterBlank := true, indenting := true }

def mark (p : Pen) (cs : List Char) (needsBlank indents : Bool) : Pen :=
  let p := if needsBlank && !p.afterBlank then p.put ' ' else p
  let p := p.putAll cs
  { p with afterBlank := false, indenting := p.indenting && indents }

end Pen

def writePlain (p : Pen) (cs : List Char) : Pen :=
  let p := if !p.afterBlank && !cs.isEmpty then p.put ' ' else p
  { p.putAll cs with afterBlank := false, indenting := false }

/-- The characters between single quotes; `broken` says that a line end came just before. -/
def singleChars (indent : Nat) : Pen → Bool → List Char → Pen
  | p, broken, [] => if broken then p.newLine indent else p
  | p, broken, c :: cs =>
    if isBreak c then
      let p := if !broken && c = '\n' then p.putBreak '\n' else p
      singleChars indent { p.putBreak c with indenting := true } true cs
    else if isSpace c then singleChars indent (p.put c) broken cs
    else
      let p := if broken then p.newLine indent else p
      let p := if c = Char.ofNat 0x27 then p.put c else p
      singleChars indent { p.put c with indenting := false } false cs

def writeSingle (p : Pen) (indent : Nat) (cs : List Char) : Pen :=
  let p := p.mark [Char.ofNat 0x27] true false
  let p := singleChars indent p false cs
  p.mark [Char.ofNat 0x27] false false

def hexDigits (width n : Nat) : List Char :=
  ((List.range width).map fun i => (Nat.digitChar (n / Nat.pow 16 i % 16)).toUpper).reverse

def escapeNames : List (Nat × Char) :=
  [(0x00, '0'), (0x07, 'a'), (0x08, 'b'), (0x09, 't'), (0x0A, 'n'), (0x0B, 'v'), (0x0C, 'f'),
    (0x0D, 'r'), (0x1B, 'e'), (0x22, '"'), (0x5C, '\\'), (0x85, 'N'), (0x2028, 'L'),
    (0x2029, 'P')]

def doubleChar (c : Char) : List Char :=
  if !isPrintable c || isBreak c || c = '"' || c = '\\' then
    let n := c.toNat
    match escapeNames.find? fun e => e.1 = n with
    | some (_, name) => ['\\', name]
    | none =>
      if n ≤ 0xFF then '\\' :: 'x' :: hexDigits 2 n
      else if n ≤ 0xFFFF then '\\' :: 'u' :: hexDigits 4 n
      else '\\' :: 'U' :: hexDigits 8 n
  else [c]

def writeDouble (p : Pen) (cs : List Char) : Pen :=
  ((p.mark ['"'] true false).putAll (cs.flatMap doubleChar)).mark ['"'] false false

def literalHints (cs : List Char) : List Char :=
  let indent := match cs with
    | c :: _ => if isSpace c || isBreak c then ['2'] else []
    | [] => []
  let keep := match cs.reverse with
    | [] => ['-']
    | last :: before =>
      if !isBreak last then ['-']
      else
        match before with
        | [] => ['+']
        | c :: _ => if isBreak c then ['+'] else []
  indent ++ keep

def literalChars (indent : Nat) : Pen → Bool → List Char → Pen
  | p, _, [] => p
  | p, broken, c :: cs =>
    if isBreak c then literalChars indent { p.putBreak c with indenting := true } true cs
    else
      let p := if broken then p.newLine indent else p
      literalChars indent { p.put c with indenting := false } false cs

def writeLiteral (p : Pen) (indent : Nat) (cs : List Char) : Pen :=
  let p := (p.mark ['|'] true false).mark (literalHints cs) false false
  let p := { p.putBreak '\n' with indenting := true, afterBlank := true }
  literalChars indent p true cs

/-- A text, with the indentation of what it belongs to, if that is not the whole document. -/
def writeText (p : Pen) (indent : Option Nat) (simpleKey : Bool) (text : String) : Pen :=
  let inner := match indent with
    | some n => n + 2
    | none => 2
  let cs := text.toList
  match Style.ofText text simpleKey with
  | .plain => writePlain p cs
  | .single => writeSingle p inner cs
  | .double => writeDouble p cs
  | .literal => writeLiteral p inner cs

/-- Longer keys and keys of several lines stand on a line of their own. -/
def isSimpleKey (key : String) : Bool :=
  !key.toList.any isBreak && key.utf8ByteSize ≤ 128

def innerIndent (indent : Option Nat) : Nat :=
  match indent with
  | some n => n + 2
  | none => 0

def numberChars : Number → List Char
  | .int i => Json.intChars i
  | .float bits => floatLayout.write bits

mutual
def writeNode (p : Pen) (indent : Option Nat) (underKey : Bool) : Json → Pen
  | .null => writePlain p "null".toList
  | .bool true => writePlain p "true".toList
  | .bool false => writePlain p "false".toList
  | .number n => writePlain p (numberChars n)
  | .string s => writeText p indent false s
  | .array [] => (p.mark ['['] true false).mark [']'] false false
  | .object [] => (p.mark ['{'] true false).mark ['}'] false false
  | .array (x :: xs) =>
    let inner := match indent with
      | some n => if underKey && !p.indenting then n else n + 2
      | none => 0
    writeItems p inner (x :: xs)
  | .object (f :: fs) => writeFields p (innerIndent indent) (f :: fs)

def writeItems (p : Pen) (indent : Nat) : List Json → Pen
  | [] => p
  | x :: xs =>
    let p := (p.newLine indent).mark ['-'] true true
    writeItems (writeNode p (some indent) false x) indent xs

def writeFields (p : Pen) (indent : Nat) : List (String × Json) → Pen
  | [] => p
  | (key, value) :: rest =>
    let p := p.newLine indent
    let p :=
      if isSimpleKey key then (writeText p (some indent) true key).mark [':'] false false
      else
        let p := writeText (p.mark ['?'] true true) (some indent) false key
        (p.newLine indent).mark [':'] true true
    writeFields (writeNode p (some indent) true value) indent rest
end

def write (v : Json) : String :=
  String.ofList ((writeNode {} none false v).newLine 0).written.reverse

end Experiment.Yaml
