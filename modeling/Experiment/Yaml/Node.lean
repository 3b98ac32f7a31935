import Experiment.Yaml.Layout

/-!
# The nodes of a YAML document

Tokens are grouped into scalars, sequences and mappings. A reference to an anchor stays one here: it
names a number, and the node that has the number in the end is the one that is meant.
-/

namespace Experiment.Yaml

inductive Node where
  | reference (number : Nat)
  | scalar (tag text : String) (plain : Bool)
  | sequence (tag : String) (items : List Node)
  | mapping (tag : String) (entries : List (Node × Node))
deriving Inhabited

namespace Node

def empty : Node :=
  .scalar "" "" true

end Node

/-- What is known of anchors and tags while nodes are built, and the tokens that are left. -/
structure Builder where
  tokens : List Token
  directives : List (String × String) := []
  /-- The numbers of names. -/
  anchors : OrderedMap Nat := []
  /-- For each number the place of its node in the order of anchors; the latest counts. -/
  holders : List (Nat × Nat) := []
  anchored : Nat := 0
  nodes : List (Nat × Node) := []

abbrev Build (α : Type) := StateT Builder Option α

namespace Build

def peek : Build Token := do
  return (← get).tokens.headD .streamEnd

def skip : Build Unit :=
  modify fun b => { b with tokens := b.tokens.drop 1 }

def isAt (tokens : List Token) : Build Bool := do
  return tokens.contains (← peek)

def standardTags : List (String × String) :=
  [("!", "!"), ("!!", "tag:yaml.org,2002:")]

def tagOf (handle suffix : String) : Build String :=
  if handle = "" then pure suffix
  else do
    match OrderedMap.find? handle ((← get).directives ++ standardTags) with
    | some meaning => return meaning ++ suffix
    | none => failure

/-- The number of a name is how many names were known before it, even if it was one of them. -/
def register (name : String) : Build Nat := do
  let b ← get
  let number := b.anchors.length
  set { b with
    anchors := OrderedMap.insert name number b.anchors
    holders := (number, b.anchored) :: b.holders
    anchored := b.anchored + 1 }
  return b.anchored

def record (place : Nat) (n : Node) : Build Unit :=
  modify fun b => { b with nodes := (place, n) :: b.nodes }

def reference (name : String) : Build Node := do
  match OrderedMap.find? name (← get).anchors with
  | some number => return .reference number
  | none => failure

def properties : Build (Option String × Option (String × String)) := do
  match ← peek with
  | .anchor a =>
    skip
    match ← peek with
    | .tag h s => do skip; return (some a, some (h, s))
    | _ => return (some a, none)
  | .tag h s =>
    skip
    match ← peek with
    | .anchor a => do skip; return (some a, some (h, s))
    | _ => return (none, some (h, s))
  | _ => return (none, none)

mutual

/-- A node. In a block a sequence may stand at the indentation of its parent. -/
def node (fuel : Nat) (inBlock indentless : Bool) : Build Node :=
  match fuel with
  | 0 => failure
  | fuel + 1 => do
    match ← peek with
    | .reference name => do skip; reference name
    | _ =>
      let (anchor, tag) ← properties
      let resolved ← match tag with
        | some (h, s) => tagOf h s
        | none => pure ""
      match anchor with
      | none => content fuel resolved tag.isSome inBlock indentless
      | some name =>
        let place ← register name
        let n ← content fuel resolved true inBlock indentless
        record place n
        return n

def content (fuel : Nat) (tag : String) (marked inBlock indentless : Bool) : Build Node :=
  match fuel with
  | 0 => failure
  | fuel + 1 => do
    let nothing : Build Node := if marked then pure (.scalar tag "" true) else failure
    match ← peek with
    | .entry =>
      if indentless then return .sequence tag (← entries fuel false) else nothing
    | .scalar text plain =>
      skip
      return .scalar (if tag = "!" then "" else tag) text plain
    | .flowSequenceStart => do skip; return .sequence tag (← flowItems fuel true)
    | .flowMappingStart => do skip; return .mapping tag (← flowPairs fuel true)
    | .blockSequenceStart =>
      if inBlock then skip; return .sequence tag (← entries fuel true) else nothing
    | .blockMappingStart =>
      if inBlock then skip; return .mapping tag (← pairs fuel) else nothing
    | _ => nothing

/-- The entries of a sequence in a block, with or without indentation of their own. -/
def entries (fuel : Nat) (indented : Bool) : Build (List Node) :=
  match fuel with
  | 0 => failure
  | fuel + 1 => do
    match ← peek with
    | .entry =>
      skip
      let stop := if indented then [Token.entry, .blockEnd]
        else [Token.entry, .key, .value, .blockEnd]
      let first ← if ← isAt stop then pure Node.empty else node fuel true false
      return first :: (← entries fuel indented)
    | .blockEnd => do
      if indented then skip
      return []
    | _ => if indented then failure else return []

def side (fuel : Nat) : Build Node :=
  match fuel with
  | 0 => failure
  | fuel + 1 => do
    if ← isAt [.key, .value, .blockEnd] then return .empty else node fuel true true

def pairs (fuel : Nat) : Build (List (Node × Node)) :=
  match fuel with
  | 0 => failure
  | fuel + 1 => do
    match ← peek with
    | .key =>
      skip
      let k ← side fuel
      let v ← if ← isAt [.value] then do skip; side fuel else pure .empty
      return (k, v) :: (← pairs fuel)
    | .blockEnd => do skip; return []
    | _ => failure

def flowValue (fuel : Nat) (close : Token) : Build Node :=
  match fuel with
  | 0 => failure
  | fuel + 1 => do
    if ← isAt [.value] then
      skip
      if ← isAt [.flowEntry, close] then return .empty else node fuel false false
    else return .empty

/-- The items of a flow sequence up to its bracket. An item may be a single pair; where its key is
missing, the token in its place is passed over. -/
def flowItems (fuel : Nat) (first : Bool) : Build (List Node) :=
  match fuel with
  | 0 => failure
  | fuel + 1 => do
    if ← isAt [.flowSequenceEnd] then do skip; return []
    else
      if !first then
        if ← isAt [.flowEntry] then skip else failure
      match ← peek with
      | .key =>
        skip
        let k ← if ← isAt [.value, .flowEntry, .flowSequenceEnd] then do skip; pure Node.empty
          else node fuel false false
        let v ← flowValue fuel .flowSequenceEnd
        return .mapping "" [(k, v)] :: (← flowItems fuel false)
      | .flowSequenceEnd => do skip; return []
      | _ =>
        let item ← node fuel false false
        return item :: (← flowItems fuel false)

/-- The pairs of a flow mapping up to its brace. A node without a mark is a key without a value. -/
def flowPairs (fuel : Nat) (first : Bool) : Build (List (Node × Node)) :=
  match fuel with
  | 0 => failure
  | fuel + 1 => do
    if ← isAt [.flowMappingEnd] then do skip; return []
    else
      if !first then
        if ← isAt [.flowEntry] then skip else failure
      match ← peek with
      | .key =>
        skip
        let k ← if ← isAt [.value, .flowEntry, .flowMappingEnd] then pure Node.empty
          else node fuel false false
        let v ← flowValue fuel .flowMappingEnd
        return (k, v) :: (← flowPairs fuel false)
      | .flowMappingEnd => do skip; return []
      | _ =>
        let k ← node fuel false false
        return (k, .empty) :: (← flowPairs fuel false)

end

/-- The directives of a document; of a version there is at most one, and it is 1.1 or 1.2. -/
def readDirectives : Nat → Bool → Build Unit
  | 0, _ => failure
  | fuel + 1, versioned => do
    match ← peek with
    | .version major minor =>
      if versioned || major ≠ 1 || !(minor = 1 || minor = 2) then failure
      skip
      readDirectives fuel true
    | .tagDirective handle meaning =>
      let b ← get
      if OrderedMap.has handle b.directives then failure
      set { b with directives := b.directives ++ [(handle, meaning)] }
      skip
      readDirectives fuel versioned
    | _ => pure ()

def skipMarks : Nat → Build Unit
  | 0 => pure ()
  | fuel + 1 => do
    if ← isAt [.documentEnd] then
      skip
      skipMarks fuel

def atBound : Build Bool := do
  match ← peek with
  | .version _ _ | .tagDirective _ _ | .documentStart | .documentEnd | .streamEnd => return true
  | _ => return false

/-- The only document of a text; a text without any has an empty one. -/
def document : Build Node := do
  let size := (← get).tokens.length
  let fuel := 3 * size + 8
  match ← peek with
  | .streamEnd => return .empty
  | .version _ _ | .tagDirective _ _ | .documentStart =>
    readDirectives (size + 1) false
    if !(← isAt [.documentStart]) then failure
    skip
    let n ← if ← atBound then pure Node.empty else node fuel true false
    skipMarks size
    if ← isAt [.streamEnd] then return n else failure
  | _ =>
    let n ← node fuel true false
    skipMarks size
    if ← isAt [.streamEnd] then return n else failure

end Build

end Experiment.Yaml
