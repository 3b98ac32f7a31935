import Experiment.Document
import Experiment.Yaml.Position

/-!
# The text of YAML scalars

Scalars are bare, quoted or blocks. Line breaks within bare and quoted ones are folded: a single one
is a blank, and of several the first is dropped. Each reader gives the text and the position after
it.
-/

namespace Experiment.Yaml

def quote : Char := Char.ofNat 0x27

/-- The blanks and line breaks between two parts of a scalar. Lists of characters are kept in
reverse. -/
structure Gap where
  broken : Bool := false
  blanks : List Char := []
  first : Option Char := none
  more : List Char := []

namespace Gap

def folded (g : Gap) : List Char :=
  if g.broken then
    match g.first with
    | some '\n' => if g.more.isEmpty then [' '] else g.more
    | some c => g.more ++ [c]
    | none => g.more
  else g.blanks

def addBlank (g : Gap) (c : Char) : Gap :=
  if g.broken then g else { g with blanks := c :: g.blanks }

def addBreak (g : Gap) (c : Char) : Gap :=
  if g.broken then { g with more := Position.breakChar c :: g.more }
  else { g with broken := true, blanks := [], first := some (Position.breakChar c) }

/-- Reads a gap. Tabs may not stand before `indent` at the start of a line. -/
def readFuel (indent : Int) : Nat → Position → Gap → Option (Gap × Position)
  | 0, p, g => some (g, p)
  | fuel + 1, p, g =>
    match p.rest with
    | [] => some (g, p)
    | c :: _ =>
      if isSpaceOrTab c then
        if g.broken && (p.column : Int) < indent && c = '\t' then none
        else readFuel indent fuel p.next (g.addBlank c)
      else if endsLine c then readFuel indent fuel p.nextLine (g.addBreak c)
      else some (g, p)

def read (indent : Int) (p : Position) (g : Gap) : Option (Gap × Position) :=
  readFuel indent (p.rest.length + 1) p g

end Gap

/-! ## Quoted scalars -/

def simpleEscape? (c : Char) : Option Char :=
  match c with
  | '0' => some '\x00'
  | 'a' => some '\x07'
  | 'b' => some '\x08'
  | 't' => some '\t'
  | '\t' => some '\t'
  | 'n' => some '\n'
  | 'v' => some '\x0b'
  | 'f' => some '\x0c'
  | 'r' => some '\r'
  | 'e' => some '\x1b'
  | ' ' => some ' '
  | '"' => some '"'
  | '/' => some '/'
  | '\\' => some '\\'
  | 'N' => some '\u0085'
  | '_' => some '\u00a0'
  | 'L' => some '\u2028'
  | 'P' => some '\u2029'
  | _ => none

def escapeWidth? (c : Char) : Option Nat :=
  if c = 'x' then some 2 else if c = 'u' then some 4 else if c = 'U' then some 8 else none

/-- The character of an escape and the position after it; `p` stands after the backslash. -/
def escape? (p : Position) : Option (Char × Position) :=
  match p.rest with
  | [] => none
  | c :: rest =>
    match simpleEscape? c with
    | some d => some (d, p.next)
    | none => do
      let width ← escapeWidth? c
      let digits := rest.take width
      if digits.length < width then none
      let n ← Word.natIn? 16 digits
      if (0xD800 ≤ n && n ≤ 0xDFFF) || 0x10FFFF < n then none
      return (Char.ofNat n, p.skip (width + 1))

def quotedFuel (single : Bool) : Nat → Position → List Char → Option (String × Position)
  | 0, _, _ => none
  | fuel + 1, p, read =>
    if p.atDocumentMark then none
    else
      match p.rest with
      | [] => none
      | c :: rest =>
        if isSpaceOrTab c || endsLine c then
          match Gap.read 0 p {} with
          | some (g, p) => quotedFuel single fuel p (g.folded ++ read)
          | none => none
        else if single then
          if c = quote then
            if rest.head? = some quote then quotedFuel single fuel (p.skip 2) (quote :: read)
            else some (String.ofList read.reverse, p.next)
          else quotedFuel single fuel p.next (c :: read)
        else if c = '"' then some (String.ofList read.reverse, p.next)
        else if c = '\\' then
          if (rest.head?.map endsLine).getD false then
            match Gap.read 0 p.next.nextLine { broken := true } with
            | some (g, p) => quotedFuel single fuel p (g.folded ++ read)
            | none => none
          else
            match escape? p.next with
            | some (d, p) => quotedFuel single fuel p (d :: read)
            | none => none
        else quotedFuel single fuel p.next (c :: read)

def quotedScalar? (single : Bool) (p : Position) : Option (String × Position) :=
  quotedFuel single (p.rest.length + 1) p []

/-! ## Bare scalars -/

def isFlowMark (c : Char) : Bool :=
  c = ',' || c = '[' || c = ']' || c = '{' || c = '}'

def endsBare (flow : Bool) (c : Char) (rest : List Char) : Bool :=
  (c = ':' && atGap rest) || (flow && isFlowMark c)

/-- A colon right before a mark of the flow style is refused there. -/
def strayColon (flow : Bool) (c : Char) (rest : List Char) : Bool :=
  flow && c = ':' && match rest with
    | d :: _ => isFlowMark d || d = '?'
    | [] => false

/-- A bare scalar; `gap` is what was read since the last part, `fresh` says that a comment or the
mark of a document may stand here. The last component says that a line break followed. -/
def bareFuel (flow : Bool) (indent : Int) :
    Nat → Bool → Position → Gap → List Char → Option (List Char × Position × Bool)
  | 0, _, p, g, read => some (read, p, g.broken)
  | fuel + 1, fresh, p, g, read =>
    if fresh && (p.atDocumentMark || p.rest.head? = some '#') then some (read, p, g.broken)
    else
      match p.rest with
      | [] => some (read, p, g.broken)
      | c :: rest =>
        if isSpaceOrTab c || endsLine c then
          match Gap.read indent p {} with
          | none => none
          | some (g, p) =>
            if !flow && (p.column : Int) < indent then some (read, p, g.broken)
            else bareFuel flow indent fuel true p g read
        else if strayColon flow c rest then none
        else if endsBare flow c rest then some (read, p, g.broken)
        else bareFuel flow indent fuel false p.next {} (c :: (g.folded ++ read))

def bareScalar? (flow : Bool) (indent : Int) (p : Position) :
    Option (String × Position × Bool) :=
  (bareFuel flow indent (2 * p.rest.length + 2) true p {} []).map fun r =>
    (String.ofList r.1.reverse, r.2.1, r.2.2)

/-! ## Block scalars -/

inductive Chomping where
  | strip
  | clip
  | keep
deriving DecidableEq

structure BlockHeader where
  chomping : Chomping := .clip
  /-- The indentation relative to the parent, if it is given. -/
  increment : Option Nat := none

def chomping? (p : Position) : Option (Chomping × Position) :=
  match p.rest with
  | '+' :: _ => some (.keep, p.next)
  | '-' :: _ => some (.strip, p.next)
  | _ => none

def increment (p : Position) : Option (Option Nat × Position) :=
  match p.rest with
  | c :: _ =>
    if c.isDigit then
      if c = '0' then none else some (some (c.toNat - '0'.toNat), p.next)
    else some (none, p)
  | [] => some (none, p)

def blockHeader? (p : Position) : Option (BlockHeader × Position) :=
  match chomping? p with
  | some (chomping, p) => (increment p).map fun r => ({ chomping, increment := r.1 }, r.2)
  | none =>
    match increment p with
    | none => none
    | some (n, p) =>
      match n, chomping? p with
      | some _, some (chomping, p) => some ({ chomping, increment := n }, p)
      | _, _ => some ({ increment := n }, p)

/-- Indentation and empty lines before a line of content. An `indent` of zero is not known yet;
then `deepest` is the deepest column seen. -/
def blockBreaksFuel (indent : Nat) :
    Nat → Nat → Position → List Char → Option (Nat × Position × List Char)
  | 0, deepest, p, breaks => some (deepest, p, breaks)
  | fuel + 1, deepest, p, breaks =>
    let spaces := (p.rest.takeWhile (· = ' ')).length
    let p := p.skip (if indent = 0 then spaces else min spaces (indent - p.column))
    let deepest := max deepest p.column
    match p.rest with
    | [] => some (deepest, p, breaks)
    | c :: _ =>
      if (indent = 0 || p.column < indent) && c = '\t' then none
      else if endsLine c then
        blockBreaksFuel indent fuel deepest p.nextLine (Position.breakChar c :: breaks)
      else some (deepest, p, breaks)

def blockBreaks (indent : Nat) (p : Position) : Option (Nat × Position × List Char) :=
  blockBreaksFuel indent (p.rest.length + 1) 0 p []

/-- The lines of a block. `first` is the line break before this line and `more` the empty lines
after it; `indented` says that the line before began with a blank. -/
def blockLinesFuel (literal : Bool) (indent : Nat) :
    Nat → Bool → Option Char → List Char → Position → List Char →
      Option (List Char × Option Char × List Char × Position)
  | 0, _, first, more, p, read => some (read, first, more, p)
  | fuel + 1, indented, first, more, p, read =>
    if p.column ≠ indent || p.rest.isEmpty then some (read, first, more, p)
    else
      let blank := (p.rest.head?.map isSpaceOrTab).getD false
      let joined :=
        if !literal && first = some '\n' && !indented && !blank then
          if more.isEmpty then [' '] else more
        else more ++ first.toList
      let content := p.rest.takeWhile fun c => !endsLine c
      let p := p.skip content.length
      let read := content.reverse ++ (joined ++ read)
      let (ending, p) := match p.rest with
        | c :: _ => (some (Position.breakChar c), p.nextLine)
        | [] => (none, p)
      match blockBreaks indent p with
      | none => none
      | some (_, p, more) => blockLinesFuel literal indent fuel blank ending more p read

/-- A block after its mark; `parent` is the indentation of what it belongs to. -/
def blockScalar? (literal : Bool) (parent : Int) (p : Position) : Option (String × Position) := do
  let (header, p) ← blockHeader? p
  let p := (p.skipWhile isSpaceOrTab).skipComment
  let p ← match p.rest with
    | [] => some p
    | c :: _ => if endsLine c then some p.nextLine else none
  let given := match header.increment with
    | some n => if 0 ≤ parent then parent.toNat + n else n
    | none => 0
  let (deepest, p, breaks) ← blockBreaks given p
  let indent := if given = 0 then max (max deepest (parent + 1).toNat) 1 else given
  let (read, first, more, p) ←
    blockLinesFuel literal indent (p.rest.length + 1) false none breaks p []
  let tail := match header.chomping with
    | .strip => []
    | .clip => first.toList
    | .keep => more ++ first.toList
  return (String.ofList (tail ++ read).reverse, p)

end Experiment.Yaml
