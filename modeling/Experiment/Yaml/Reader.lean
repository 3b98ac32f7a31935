import Experiment.Yaml.Node

/-!
# Reading YAML

`Yaml.document?` reads a text as the document that its only YAML document stands for. References are
replaced by what they refer to.
-/

namespace Experiment.Yaml

def referent? (b : Builder) (number : Nat) : Option (Nat × Node) := do
  let place ← (b.holders.find? fun h => h.1 = number).map Prod.snd
  let n ← (b.nodes.find? fun n => n.1 = place).map Prod.snd
  return (place, n)

def coreTag (name : String) : String :=
  "tag:yaml.org,2002:" ++ name

def resolutionOf (tag : String) (plain : Bool) : Resolution :=
  if tag = "" then (if plain then .inferred else .text)
  else if tag = coreTag "bool" then .bool
  else if tag = coreTag "int" then .int
  else if tag = coreTag "float" then .float
  else if tag = coreTag "null" then .null
  else .text

def ownTag? (tag : String) : Option String :=
  match tag.toList with
  | ['!'] => some "!"
  | '!' :: name => some (String.ofList name)
  | _ => none

def tagged (tag : String) (d : Document) : Document :=
  match ownTag? tag with
  | some name => .tagged name d
  | none => d

def wordOf (tag text : String) (plain : Bool) : Document :=
  match ownTag? tag with
  | some name => .tagged name (.word ⟨text, if plain then .inferred else .text, plain⟩)
  | none => .word ⟨text, resolutionOf tag plain, plain⟩

def keyText? : Document → Option String
  | .word w => some w.text
  | .tagged _ (.word w) => some w.text
  | _ => none

mutual
/-- `budget` is how many references may still be followed, `inside` lists the places of the nodes
that this one is part of: a reference to one of these stands for nothing that can be read. -/
def expand (b : Builder) (depth budget : Nat) (inside : List Nat) (n : Node) :
    Option (Document × Nat) :=
  match n with
  | .scalar tag text plain => some (wordOf tag text plain, budget)
  | .sequence tag items => do
    let (ds, budget) ← expandItems b depth budget inside items
    return (tagged tag (.sequence ds), budget)
  | .mapping tag entries => do
    let (es, budget) ← expandEntries b depth budget inside entries
    return (tagged tag (.mapping es), budget)
  | .reference number =>
    match depth, budget, referent? b number with
    | depth + 1, budget + 1, some (place, target) =>
      if inside.contains place then some (.unreadable, budget)
      else expand b depth budget (place :: inside) target
    | _, _, none => some (.unreadable, budget)
    | _, _, _ => none
termination_by (depth, sizeOf n)

def expandItems (b : Builder) (depth budget : Nat) (inside : List Nat) (items : List Node) :
    Option (List Document × Nat) :=
  match items with
  | [] => some ([], budget)
  | n :: rest => do
    let (d, budget) ← expand b depth budget inside n
    let (ds, budget) ← expandItems b depth budget inside rest
    return (d :: ds, budget)
termination_by (depth, sizeOf items)

def expandEntries (b : Builder) (depth budget : Nat) (inside : List Nat)
    (entries : List (Node × Node)) : Option (List (Option String × Document) × Nat) :=
  match entries with
  | [] => some ([], budget)
  | (k, v) :: rest => do
    let (key, budget) ← expand b depth budget inside k
    let (d, budget) ← expand b depth budget inside v
    let (es, budget) ← expandEntries b depth budget inside rest
    return ((keyText? key, d) :: es, budget)
termination_by (depth, sizeOf entries)
end

def withoutMark : List Char → List Char
  | c :: rest => if c = '\ufeff' then rest else c :: rest
  | [] => []

/-- References may be followed a hundred times as often as there are tokens. -/
def document? (text : String) : Option Document := do
  let tokens ← tokens? (withoutMark text.toList)
  let (n, b) ← Build.document.run { tokens }
  let (d, _) ← expand b (b.anchored + 1) (100 * (tokens.length + 1)) [] n
  return d

end Experiment.Yaml
