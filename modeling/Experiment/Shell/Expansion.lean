import Experiment.Shell.Session

/-!
# Fields of a command

The parts of a word, once its variables have their values, make up a text, a pattern or the fields
of a command. What an unquoted variable stands for is split at blanks; unquoted patterns give way to
the paths that fit them.
-/

namespace Experiment.Shell

inductive Part where
  | literal (value : String) (quoted : Bool)
  | value (value : String) (quoted : Bool)
  /-- All arguments, each a field of its own. -/
  | arguments (values : List String)

namespace Part

def toText : Part → String
  | .literal v _ => v
  | .value v _ => v
  | .arguments vs => Text.joinWith " " vs

def text (parts : List Part) : String :=
  String.join (parts.map toText)

def toMarked : Part → List Marked
  | .literal v quoted => v.toList.map fun c => (c, quoted)
  | .value v quoted => v.toList.map fun c => (c, quoted)
  | .arguments vs => (Text.joinWith " " vs).toList.map fun c => (c, true)

def marked (parts : List Part) : List Marked :=
  parts.flatMap toMarked

def asValue : Part → Part
  | .literal v false => .value v false
  | p => p

/-- A piece of a field: a character, a mark that the field exists though it may be empty, or the
gap between two fields. -/
inductive Piece where
  | char (c : Marked)
  | present
  | gap
deriving DecidableEq

def pieces : Part → List Piece
  | .literal v quoted =>
    (if quoted then [.present] else []) ++ v.toList.map fun c => .char (c, quoted)
  | .value v true => .present :: v.toList.map fun c => .char (c, true)
  | .value v false =>
    v.toList.map fun c => if c = ' ' || c = '\t' || c = '\n' then .gap else .char (c, false)
  | .arguments vs =>
    [Piece.gap].intercalate
      (vs.map fun v => Piece.present :: v.toList.map fun c => .char (c, true))

def group : List Piece → Option (List Marked) → List (List Marked)
  | [], none => []
  | [], some cs => [cs.reverse]
  | .gap :: rest, none => group rest none
  | .gap :: rest, some cs => cs.reverse :: group rest none
  | .present :: rest, cs => group rest (some (cs.getD []))
  | .char c :: rest, cs => group rest (some (c :: cs.getD []))

def components : List Marked → List (List Marked)
  | [] => [[]]
  | c :: rest =>
    match components rest with
    | [] => [[c]]
    | part :: parts => if c.1 = '/' then [] :: part :: parts else (c :: part) :: parts

/-- The names in a directory that fit; those that begin with a dot only if the pattern does. -/
def namesIn (files : FileTree) (base : FilePath) (gs : List Glob) : List String :=
  match files.locate (if base = "" then "." else base) with
  | .error _ => []
  | .ok l =>
    let names := (files.children l).map Prod.fst
    let visible := names.filter fun n =>
      Glob.fits gs n.toList && (n.toList.head? ≠ some '.' || gs.head? = some (.exactly '.'))
    visible.mergeSort fun a b => decide (a ≤ b)

def matching (files : FileTree) (base : FilePath) : List (List Marked) → List FilePath
  | [] => [base]
  | component :: rest =>
    let gs := Glob.ofMarked component
    let names := if Glob.isPattern gs then namesIn files base gs
      else [String.ofList (component.map Prod.fst)]
    names.flatMap fun n =>
      if rest.isEmpty then (if files.exists? (base ++ n) then [base ++ n] else [])
      else matching files (base ++ n ++ "/") rest

/-- A pattern that no path fits stands for itself. -/
def paths (files : FileTree) (field : List Marked) : List String :=
  let plain := String.ofList (field.map Prod.fst)
  if Glob.isPattern (Glob.ofMarked field) then
    match matching files "" (components field) with
    | [] => [plain]
    | found => found
  else [plain]

def fields (files : FileTree) (parts : List Part) : List String :=
  (group (parts.flatMap pieces) none).flatMap (paths files)

end Part

end Experiment.Shell
