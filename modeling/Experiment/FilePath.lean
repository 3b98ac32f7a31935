import Experiment.Text

/-!
# Paths

A path is a text; its components are what lies between slashes. Empty components and inner dots say
nothing, so two texts can be the same path.
-/

namespace Experiment

abbrev FilePath := String

namespace FilePath

inductive Component where
  | root
  | here
  | up
  | name (s : String)
deriving DecidableEq

def part? (s : String) : Option Component :=
  if s = "" || s = "." then none
  else if s = ".." then some .up
  else some (.name s)

def pieces (p : FilePath) : List String :=
  (Text.splitOn '/' p.toList).map String.ofList

def isAbsolute (p : FilePath) : Bool :=
  Text.startsWith ['/'] p.toList

/-- A dot counts at the start of a relative path only. -/
def components (p : FilePath) : List Component :=
  let parts := (pieces p).filterMap part?
  if isAbsolute p then .root :: parts
  else if (pieces p).head? = some "." then .here :: parts
  else parts

def same (p q : FilePath) : Bool :=
  components p = components q

/-- An absolute path replaces what it is joined to. -/
def join (base p : FilePath) : FilePath :=
  if isAbsolute p then p
  else if base = "" || base.toList.getLast? = some '/' then base ++ p
  else base ++ "/" ++ p

def Component.text : Component → String
  | .root => "/"
  | .here => "."
  | .up => ".."
  | .name s => s

def ofComponents : List Component → FilePath
  | .root :: rest => "/" ++ Text.joinWith "/" (rest.map Component.text)
  | parts => Text.joinWith "/" (parts.map Component.text)

def parent? (p : FilePath) : Option FilePath :=
  match (components p).reverse with
  | [] => none
  | .root :: _ => none
  | _ :: rest => some (ofComponents rest.reverse)

def fileName? (p : FilePath) : Option String :=
  match (components p).getLast? with
  | some (.name s) => some s
  | _ => none

def splitName (name : String) : String × Option String :=
  let back := name.toList.reverse
  match Text.splitFirst? '.' back with
  | some (extension, stem) =>
    if stem.isEmpty then (name, none)
    else (String.ofList stem.reverse, some (String.ofList extension.reverse))
  | none => (name, none)

def stem? (p : FilePath) : Option String :=
  (fileName? p).map fun n => (splitName n).1

def extension? (p : FilePath) : Option String :=
  (fileName? p).bind fun n => (splitName n).2

end FilePath

end Experiment
