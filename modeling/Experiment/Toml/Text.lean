import Experiment.Json.Token
import Experiment.Text

/-!
# Keys and strings of TOML

Each reader takes a text and gives what it read with the rest. Strings come in four kinds: with
escapes or without, and within a line or across lines.
-/

namespace Experiment.Toml

def quote : Char := Char.ofNat 0x27

def isSpace (c : Char) : Bool :=
  c = ' ' || c = '\t'

def skipSpaces (cs : List Char) : List Char :=
  cs.dropWhile isSpace

/-- Characters that may stand in comments and strings: no control character but the tab. -/
def isPrintable (c : Char) : Bool :=
  c = '\t' || (0x20 ≤ c.toNat && c.toNat ≠ 0x7F)

def newline? : List Char → Option (List Char)
  | '\n' :: rest => some rest
  | '\r' :: '\n' :: rest => some rest
  | _ => none

def skipComment (cs : List Char) : List Char :=
  match cs with
  | '#' :: rest => rest.dropWhile isPrintable
  | cs => cs

def lineEnd? (cs : List Char) : Option (List Char) :=
  match skipComment (skipSpaces cs) with
  | [] => some []
  | rest => newline? rest

def skipLinesFuel : Nat → List Char → List Char
  | 0, cs => cs
  | fuel + 1, cs =>
    let cs := skipSpaces cs
    match newline? (skipComment cs) with
    | some rest => skipLinesFuel fuel rest
    | none => cs

def skipLines (cs : List Char) : List Char :=
  skipLinesFuel (cs.length + 1) cs

def isBareKey (c : Char) : Bool :=
  c.isAlphanum || c = '-' || c = '_'

def simpleEscape? (c : Char) : Option Char :=
  match c with
  | '"' => some '"'
  | '\\' => some '\\'
  | 'b' => some '\x08'
  | 'f' => some '\x0c'
  | 'n' => some '\n'
  | 'r' => some '\r'
  | 't' => some '\t'
  | _ => none

def hexValue? : List Char → Nat → Option Nat
  | [], n => some n
  | c :: cs, n =>
    match Json.Token.hex? c with
    | some d => hexValue? cs (n * 16 + d)
    | none => none

def scalar? (n : Nat) : Option Char :=
  if n < 0xD800 || (0xDFFF < n && n < 0x110000) then some (Char.ofNat n) else none

def escape? : List Char → Option (Char × List Char)
  | [] => none
  | c :: cs =>
    match simpleEscape? c with
    | some d => some (d, cs)
    | none => do
      let width ← if c = 'u' then some 4 else if c = 'U' then some 8 else none
      if cs.length < width then none
      let n ← hexValue? (cs.take width) 0
      let d ← scalar? n
      return (d, cs.drop width)

def basicString : Nat → List Char → List Char → Option (String × List Char)
  | 0, _, _ => none
  | _ + 1, [], _ => none
  | fuel + 1, c :: cs, read =>
    if c = '"' then some (String.ofList read.reverse, cs)
    else if c = '\\' then
      match escape? cs with
      | some (d, rest) => basicString fuel rest (d :: read)
      | none => none
    else if isPrintable c then basicString fuel cs (c :: read)
    else none

def literalString (cs : List Char) : Option (String × List Char) :=
  match Text.splitFirst? quote cs with
  | some (inside, rest) =>
    if inside.all isPrintable then some (String.ofList inside, rest) else none
  | none => none

/-- Blanks and line breaks after a backslash that ends a line; `none` if it does not. -/
def lineContinuation? (cs : List Char) : Option (List Char) :=
  match newline? (skipSpaces cs) with
  | some rest =>
    some (rest.dropWhile fun c => isSpace c || c = '\n' || c = '\r')
  | none => none

/-- The quotes that end a string across lines: three, and up to two before them that belong to the
string. -/
def closing? (mark : Char) (cs : List Char) : Option (Nat × List Char) :=
  let marks := (cs.takeWhile (· = mark)).length
  if marks < 3 then none
  else
    let taken := min marks 5
    some (taken - 3, cs.drop taken)

/-- A string across lines, from within. Line breaks are kept as line feeds. -/
def longString (mark : Char) (escapes : Bool) :
    Nat → List Char → List Char → Option (String × List Char)
  | 0, _, _ => none
  | _ + 1, [], _ => none
  | fuel + 1, c :: cs, read =>
    match closing? mark (c :: cs) with
    | some (kept, rest) => some (String.ofList (List.replicate kept mark ++ read).reverse, rest)
    | none =>
      match newline? (c :: cs) with
      | some rest => longString mark escapes fuel rest ('\n' :: read)
      | none =>
        if escapes && c = '\\' then
          match lineContinuation? cs with
          | some rest => longString mark escapes fuel rest read
          | none =>
            match escape? cs with
            | some (d, rest) => longString mark escapes fuel rest (d :: read)
            | none => none
        else if isPrintable c then longString mark escapes fuel cs (c :: read)
        else none

def afterOpening (cs : List Char) : List Char :=
  (newline? cs).getD cs

def shortString? (cs : List Char) : Option (String × List Char) :=
  match cs with
  | [] => none
  | c :: rest =>
    if c = '"' then basicString (rest.length + 1) rest []
    else if c = quote then literalString rest
    else none

def string? (cs : List Char) : Option (String × List Char) :=
  match cs with
  | a :: b :: c :: rest =>
    if a = b && b = c && (a = '"' || a = quote) then
      longString a (a = '"') (rest.length + 1) (afterOpening rest) []
    else shortString? cs
  | cs => shortString? cs

def simpleKey? (cs : List Char) : Option (String × List Char) :=
  match shortString? cs with
  | some found => some found
  | none =>
    let bare := cs.takeWhile isBareKey
    if bare.isEmpty then none else some (String.ofList bare, cs.drop bare.length)

def depthLimit : Nat := 80

def keyFuel : Nat → List Char → Option (List String × List Char)
  | 0, _ => none
  | fuel + 1, cs => do
    let (first, rest) ← simpleKey? (skipSpaces cs)
    match skipSpaces rest with
    | '.' :: rest =>
      let (more, rest) ← keyFuel fuel rest
      return (first :: more, rest)
    | rest => return ([first], rest)

def key? (cs : List Char) : Option (List String × List Char) :=
  match keyFuel (cs.length + 1) cs with
  | some (path, rest) => if path.length < depthLimit then some (path, rest) else none
  | none => none

end Experiment.Toml
