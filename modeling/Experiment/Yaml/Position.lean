import Experiment.Text

/-!
# Positions in YAML text

A position knows its line and column, because indentation and the extent of keys depend on them.
Columns and indices count characters.
-/

namespace Experiment.Yaml

structure Position where
  rest : List Char
  index : Nat := 0
  line : Nat := 0
  column : Nat := 0
deriving Inhabited

def isSpaceOrTab (c : Char) : Bool :=
  c = ' ' || c = '\t'

def endsLine (c : Char) : Bool :=
  c = '\n' || c = '\r' || c = '\u0085' || c = '\u2028' || c = '\u2029'

def atGap : List Char → Bool
  | [] => true
  | c :: _ => isSpaceOrTab c || endsLine c

def isWordChar (c : Char) : Bool :=
  c.isAlphanum || c = '_' || c = '-'

def isAllowed (c : Char) : Bool :=
  let n := c.toNat
  n = 0x09 || n = 0x0A || n = 0x0D || (0x20 ≤ n && n ≤ 0x7E) || n = 0x85
    || (0xA0 ≤ n && n ≤ 0xD7FF) || (0xE000 ≤ n && n ≤ 0xFFFD) || 0x10000 ≤ n

namespace Position

def next (p : Position) : Position :=
  { p with rest := p.rest.drop 1, index := p.index + 1, column := p.column + 1 }

def skip (p : Position) (n : Nat) : Position :=
  { p with rest := p.rest.drop n, index := p.index + n, column := p.column + n }

def nextLine (p : Position) : Position :=
  match p.rest with
  | '\r' :: '\n' :: rest => ⟨rest, p.index + 2, p.line + 1, 0⟩
  | _ :: rest => ⟨rest, p.index + 1, p.line + 1, 0⟩
  | [] => p

/-- A line break as it counts in a text: a line feed, or a separator as it is. -/
def breakChar (c : Char) : Char :=
  if c = '\u2028' || c = '\u2029' then c else '\n'

def skipWhile (f : Char → Bool) (p : Position) : Position :=
  p.skip (p.rest.takeWhile f).length

def skipComment (p : Position) : Position :=
  match p.rest with
  | '#' :: _ => p.skipWhile fun c => !endsLine c
  | _ => p

def startsWith (p : Position) (s : List Char) : Bool :=
  Text.startsWith s p.rest

/-- Three dashes or points at the start of a line bound a document. -/
def atDocumentMark (p : Position) : Bool :=
  p.column = 0 && (p.startsWith ['-', '-', '-'] || p.startsWith ['.', '.', '.'])
    && atGap (p.rest.drop 3)

end Position

end Experiment.Yaml
