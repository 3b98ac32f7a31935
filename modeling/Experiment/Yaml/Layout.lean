import Experiment.Yaml.Token

/-!
# Cutting YAML text into tokens

A bare key only shows to be one when its colon comes. So the place of everything that may be a key
is remembered, one for each level of flow collections, and the tokens of the key, and of the block
that it may begin, are put in at that place later.
-/

namespace Experiment.Yaml

structure KeyPlace where
  /-- Nothing but a key may stand here. -/
  required : Bool
  /-- The number of tokens before it. -/
  token : Nat
  index : Nat
  line : Nat
  column : Nat

structure Layout where
  position : Position
  /-- In reverse. -/
  tokens : List Token := []
  count : Nat := 0
  /-- The innermost flow collection first, blocks last. -/
  places : List (Option KeyPlace) := [none]
  indent : Int := -1
  outer : List Int := []
  keyAllowed : Bool := true

namespace Layout

def inFlow (s : Layout) : Bool :=
  1 < s.places.length

def push (s : Layout) (t : Token) : Layout :=
  { s with tokens := t :: s.tokens, count := s.count + 1 }

def pushAt (s : Layout) (number : Nat) (t : Token) : Layout :=
  { s with tokens := s.tokens.insertIdx (s.count - number) t, count := s.count + 1 }

def forward (s : Layout) (n : Nat) : Layout :=
  { s with position := s.position.skip n }

def place? (s : Layout) : Option KeyPlace :=
  s.places.head?.join

def setPlace (s : Layout) (place : Option KeyPlace) : Layout :=
  { s with places := place :: s.places.drop 1 }

/-- Forgets the place of a key; one that is required must have become one. -/
def dropPlace (s : Layout) : Option Layout :=
  match s.place? with
  | some place => if place.required then none else some (s.setPlace none)
  | none => some s

def markPlace (s : Layout) : Option Layout :=
  if s.keyAllowed then do
    let s ← s.dropPlace
    let p := s.position
    return s.setPlace (some
      { required := !s.inFlow && s.indent = (p.column : Int)
        token := s.count, index := p.index, line := p.line, column := p.column })
  else some s

/-- A key stands on one line and has at most 1024 characters. -/
def isStale (p : Position) (place : KeyPlace) : Bool :=
  place.line < p.line || place.index + 1024 < p.index

def dropStale (s : Layout) : Option Layout :=
  let stale (place : Option KeyPlace) : Bool := (place.map (isStale s.position)).getD false
  if s.places.any fun place => stale place && (place.map KeyPlace.required).getD false then none
  else some { s with places := s.places.map fun place => if stale place then none else place }

def unrollFuel (column : Int) : Nat → Layout → Layout
  | 0, s => s
  | fuel + 1, s =>
    if column < s.indent then
      unrollFuel column fuel
        { s.push .blockEnd with indent := s.outer.headD (-1), outer := s.outer.drop 1 }
    else s

def unroll (s : Layout) (column : Int) : Layout :=
  if s.inFlow then s else unrollFuel column (s.outer.length + 1) s

def roll (s : Layout) (column : Nat) (number : Nat) (t : Token) : Layout :=
  if s.inFlow || (column : Int) ≤ s.indent then s
  else { s.pushAt number t with indent := column, outer := s.indent :: s.outer }

/-- A byte order mark at the start of a line, blanks and comments. Tabs count as blanks only where
no key can begin. -/
def skipGapFuel : Nat → Layout → Layout
  | 0, s => s
  | fuel + 1, s =>
    let p := s.position
    let p := if p.column = 0 && p.rest.head? = some '\ufeff' then p.next else p
    let tabs := s.inFlow || !s.keyAllowed
    let p := (p.skipWhile fun c => c = ' ' || (tabs && c = '\t')).skipComment
    match p.rest with
    | c :: _ =>
      if endsLine c then
        skipGapFuel fuel { s with position := p.nextLine, keyAllowed := s.keyAllowed || !s.inFlow }
      else { s with position := p }
    | [] => { s with position := p }

def skipGap (s : Layout) : Layout :=
  skipGapFuel (s.position.rest.length + 1) s

def endBlocks (s : Layout) : Option Layout := do
  let s ← (s.unroll (-1)).dropPlace
  return { s with keyAllowed := false }

def directive (s : Layout) : Option Layout := do
  let s ← s.endBlocks
  let (t, position) ← Token.directive? s.position
  return { s.push t with position }

def documentMark (s : Layout) (t : Token) : Option Layout := do
  let s ← s.endBlocks
  return (s.forward 3).push t

def openFlow (s : Layout) (t : Token) : Option Layout := do
  let s ← s.markPlace
  return { (s.forward 1).push t with places := none :: s.places, keyAllowed := true }

/-- A closing bracket outside of brackets is left to the reader of the nodes. -/
def closeFlow (s : Layout) (t : Token) : Option Layout := do
  let s ← s.dropPlace
  return { (s.forward 1).push t with
    places := if s.inFlow then s.places.drop 1 else s.places, keyAllowed := false }

def flowEntry (s : Layout) : Option Layout := do
  let s ← s.dropPlace
  return { (s.forward 1).push .flowEntry with keyAllowed := true }

def beginBlock (s : Layout) (t : Token) : Option Layout :=
  if s.inFlow then some s
  else if s.keyAllowed then some (s.roll s.position.column s.count t)
  else none

def entry (s : Layout) : Option Layout := do
  let s ← s.beginBlock .blockSequenceStart
  let s ← s.dropPlace
  return { (s.forward 1).push .entry with keyAllowed := true }

def key (s : Layout) : Option Layout := do
  let s ← s.beginBlock .blockMappingStart
  let s ← s.dropPlace
  return { (s.forward 1).push .key with keyAllowed := !s.inFlow }

def value (s : Layout) : Option Layout :=
  match s.place? with
  | some place =>
    let s := (s.pushAt place.token .key).roll place.column place.token .blockMappingStart
    some { ((s.setPlace none).forward 1).push .value with keyAllowed := false }
  | none => do
    let s ← s.beginBlock .blockMappingStart
    return { (s.forward 1).push .value with keyAllowed := !s.inFlow }

def startingKey (s : Layout) (read : Layout → Option (Token × Position)) : Option Layout := do
  let s ← s.markPlace
  let (t, position) ← read s
  return { s.push t with position, keyAllowed := false }

def anchor (s : Layout) (make : String → Token) : Option Layout :=
  s.startingKey fun s => (Token.name? s.position.next).map fun r => (make r.1, r.2)

def quoted (s : Layout) (single : Bool) : Option Layout :=
  s.startingKey fun s =>
    (quotedScalar? single s.position.next).map fun r => (.scalar r.1 false, r.2)

def block (s : Layout) (literal : Bool) : Option Layout := do
  let s ← s.dropPlace
  let (text, position) ← blockScalar? literal s.indent s.position.next
  return { s.push (.scalar text false) with position, keyAllowed := true }

def bare (s : Layout) : Option Layout := do
  let s ← s.markPlace
  let (text, position, broken) ← bareScalar? s.inFlow (s.indent + 1) s.position
  return { s.push (.scalar text true) with position, keyAllowed := broken }

def isIndicator (c : Char) : Bool :=
  ['-', '?', ':', ',', '[', ']', '{', '}', '#', '&', '*', '!', '|', '>', quote, '"', '%', '@',
    Char.ofNat 0x60].contains c

def startsBare (flow : Bool) (c : Char) (rest : List Char) : Bool :=
  !(isSpaceOrTab c || endsLine c || isIndicator c)
    || (c = '-' && !(rest.head?.map isSpaceOrTab).getD false)
    || (!flow && (c = '?' || c = ':') && !atGap rest)

def token (s : Layout) (c : Char) (rest : List Char) : Option Layout :=
  let flow := s.inFlow
  if s.position.column = 0 && c = '%' then s.directive
  else if s.position.atDocumentMark then
    s.documentMark (if c = '-' then .documentStart else .documentEnd)
  else if c = '[' then s.openFlow .flowSequenceStart
  else if c = '{' then s.openFlow .flowMappingStart
  else if c = ']' then s.closeFlow .flowSequenceEnd
  else if c = '}' then s.closeFlow .flowMappingEnd
  else if c = ',' then s.flowEntry
  else if c = '-' && atGap rest then s.entry
  else if c = '?' && (flow || atGap rest) then s.key
  else if c = ':' && (flow || atGap rest) then s.value
  else if c = '*' then s.anchor .reference
  else if c = '&' then s.anchor .anchor
  else if c = '!' then s.startingKey fun s => Token.tag? s.inFlow s.position
  else if c = '|' && !flow then s.block true
  else if c = '>' && !flow then s.block false
  else if c = quote then s.quoted true
  else if c = '"' then s.quoted false
  else if startsBare flow c rest then s.bare
  else none

def finish (s : Layout) : Option (List Token) := do
  let s ← (s.unroll (-1)).dropPlace
  return (s.push .streamEnd).tokens.reverse

/-- Every token takes at least one character, so the length of the text is fuel enough. -/
def scanFuel : Nat → Layout → Option (List Token)
  | 0, _ => none
  | fuel + 1, s => do
    let s ← s.skipGap.dropStale
    let s := s.unroll s.position.column
    match s.position.rest with
    | [] => s.finish
    | c :: rest =>
      let s ← s.token c rest
      scanFuel fuel s

end Layout

def tokens? (text : List Char) : Option (List Token) :=
  if text.all isAllowed then Layout.scanFuel (text.length + 1) { position := ⟨text, 0, 0, 0⟩ }
  else none

end Experiment.Yaml
