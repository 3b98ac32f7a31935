import Experiment.Document

/-!
# Tables of TOML

Headers and dotted keys build one tree of tables. A table that only came to be on the way to another
one is implicit and may still be opened by a header; one that came to be by a dotted key is dotted
and may only be extended by dotted keys.
-/

namespace Experiment.Toml

inductive Node where
  | leaf (value : Document)
  | table (implicitly dotted : Bool) (entries : List (String × Node))
  /-- The tables of an array, in order. -/
  | tables (items : List (List (String × Node)))

abbrev Entries := List (String × Node)

/-- Changes the table at the end of a path. On the way tables that are missing are made and of an
array the last table is taken; `dotted` says that the way is a dotted key. The change is told
whether its table is dotted. -/
def changeAt (dotted : Bool) (change : Bool → Entries → Option Entries) :
    List String → Bool → Entries → Option Entries
  | [], own, entries => change own entries
  | key :: path, _, entries =>
    match OrderedMap.find? key entries with
    | none =>
      (changeAt dotted change path dotted []).map fun inner =>
        OrderedMap.insert key (.table true dotted inner) entries
    | some (.leaf _) => none
    | some (.table implicitly own inner) =>
      if dotted && !implicitly then none
      else
        (changeAt dotted change path own inner).map fun inner =>
          OrderedMap.insert key (.table implicitly own inner) entries
    | some (.tables items) =>
      match items.getLast? with
      | none => none
      | some last =>
        (changeAt dotted change path false last).map fun inner =>
          OrderedMap.insert key (.tables (items.dropLast ++ [inner])) entries

/-- A new key. Of a dotted key the table has to be a dotted one, and otherwise it must not be. -/
def assignIn (path : List String) (key : String) (value : Document) (own : Bool)
    (entries : Entries) : Option Entries :=
  changeAt true (fun own entries =>
    if own = path.isEmpty || OrderedMap.has key entries then none
    else some (OrderedMap.insert key (.leaf value) entries)) path own entries

/-- A header opens a table that is new or implicit. -/
def openTable (key : String) (_ : Bool) (entries : Entries) : Option Entries :=
  match OrderedMap.find? key entries with
  | none => some (OrderedMap.insert key (.table false false []) entries)
  | some (.table true false inner) =>
    some (OrderedMap.insert key (.table false false inner) entries)
  | some _ => none

/-- A header in double brackets begins one more table of an array. -/
def openElement (key : String) (_ : Bool) (entries : Entries) : Option Entries :=
  match OrderedMap.find? key entries with
  | none => some (OrderedMap.insert key (.tables [[]]) entries)
  | some (.tables items) => some (OrderedMap.insert key (.tables (items ++ [[]])) entries)
  | some _ => none

inductive Statement where
  | table (path : List String)
  | element (path : List String)
  | assignment (path : List String) (value : Document)

structure Builder where
  entries : Entries := []
  current : List String := []

namespace Builder

def step (b : Builder) : Statement → Option Builder
  | .table path => do
    let key ← path.getLast?
    let entries ← changeAt false (openTable key) path.dropLast false b.entries
    return ⟨entries, path⟩
  | .element path => do
    let key ← path.getLast?
    let entries ← changeAt false (openElement key) path.dropLast false b.entries
    return ⟨entries, path⟩
  | .assignment path value => do
    let key ← path.getLast?
    let entries ← changeAt false (assignIn path.dropLast key value) b.current false b.entries
    return { b with entries }

def build : Builder → List Statement → Option Builder
  | b, [] => some b
  | b, s :: rest =>
    match b.step s with
    | some b => build b rest
    | none => none

end Builder

mutual
def Node.toDocument : Node → Document
  | .leaf value => value
  | .table _ _ entries => .mapping (entriesToDocument entries)
  | .tables items => .sequence (tablesToDocument items)

def entriesToDocument : List (String × Node) → List (Option String × Document)
  | [] => []
  | (key, node) :: rest => (some key, node.toDocument) :: entriesToDocument rest

def tablesToDocument : List (List (String × Node)) → List Document
  | [] => []
  | entries :: rest => .mapping (entriesToDocument entries) :: tablesToDocument rest
end

def documentOf (statements : List Statement) : Option Document :=
  (Builder.build {} statements).map fun b => .mapping (entriesToDocument b.entries)

/-- A table within a line is whole: it is made of its own assignments only. -/
def inlineTable (assignments : List (List String × Document)) : Option Document :=
  documentOf (assignments.map fun p => .assignment p.1 p.2)

end Experiment.Toml
