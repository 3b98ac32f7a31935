import Experiment.Artifact.Summary
import Experiment.Timestamp

/-!
# Runs

A run says who it is (`metadata`), what it executes with which parameters (`spec`) and, once it has
been executed, what came of it (`status`). Definitions, tasks of a sweep and results all have this
type. Parameters and candidate values keep the order in which they were declared.
-/

namespace Experiment

abbrev Parameters := OrderedMap Json

abbrev HyperParams := OrderedMap (List Json)

inductive RunState where
  | running
  | completed
  | error
deriving DecidableEq, Inhabited

def RunState.name : RunState → String
  | .running => "running"
  | .completed => "completed"
  | .error => "error"

structure RunMetadata where
  /-- Given once; the children of a sweep share the uid of their parent. -/
  uid : Option String := none
  name : String := ""
  project : String := ""
  /-- The tag of artifacts that bring none. -/
  tag : String := ""
  /-- Zero for a run of its own, from one on for the children of a sweep. -/
  iteration : Nat := 0
  labels : OrderedMap String := []
deriving DecidableEq, Inhabited

structure Invocation where
  kind : String := ""
  command : String := ""
  args : List String := []
  workdir : Option String := none
deriving DecidableEq, Inhabited

/-- The target that a run declares for one artifact; an empty path declares none. -/
structure OutputDeclaration where
  key : String
  path : Option String := none
deriving DecidableEq, Inhabited

structure SecretSource where
  kind : String
  source : Json
deriving DecidableEq, Inhabited

/-- How lists of candidates are combined: every choice of one each, or position by position. -/
inductive Strategy where
  | grid
  | list
deriving DecidableEq, Inhabited

def Strategy.name : Strategy → String
  | .grid => "grid"
  | .list => "list"

structure SweepOptions where
  strategy : Strategy := .grid
  /-- Which iteration is best. -/
  selector : Option String := none
  /-- How many children may fail before the parent fails. -/
  maxErrors : Option Nat := none
deriving DecidableEq, Inhabited

structure RunSpec where
  parameters : Parameters := []
  runtime : Invocation := {}
  hyperparams : HyperParams := []
  options : SweepOptions := {}
  /-- The place of artifacts without a target of their own. -/
  outputPath : String := ""
  outputArtifacts : List OutputDeclaration := []
  inputs : OrderedMap String := []
  secretSources : List SecretSource := []
deriving DecidableEq, Inhabited

structure IterationTable where
  lines : List (List Json) := []
deriving DecidableEq, Inhabited

structure RunStatus where
  state : Option RunState := none
  outputs : OrderedMap Json := []
  outputArtifacts : List ArtifactSummary := []
  startTime : Option Timestamp := none
  lastUpdate : Option Timestamp := none
  /-- What the children of a sweep came to. -/
  iterations : Option IterationTable := none
  error : Option String := none
  bestIteration : Option Nat := none
deriving DecidableEq, Inhabited

structure Run where
  metadata : RunMetadata := {}
  spec : RunSpec := {}
  status : Option RunStatus := none
deriving DecidableEq, Inhabited

namespace IterationTable

def header (t : IterationTable) : List Json :=
  t.lines.head?.getD []

def rows (t : IterationTable) : List (List Json) :=
  t.lines.drop 1

def size (t : IterationTable) : Nat :=
  t.lines.length

def isEmpty (t : IterationTable) : Bool :=
  t.lines.isEmpty

def column? (t : IterationTable) (name : String) : Option Nat :=
  t.header.findIdx? fun h => h = .string name

def cell? (t : IterationTable) (row : Nat) (name : String) : Option Json := do
  let column ← t.column? name
  let cells ← t.rows[row]?
  cells[column]?

end IterationTable

namespace Run

def isEmpty (run : Run) : Bool :=
  run = {}

def uid (run : Run) : String :=
  run.metadata.uid.getD ""

def state? (run : Run) : Option RunState :=
  run.status.bind RunStatus.state

def outputs (run : Run) : OrderedMap Json :=
  (run.status.map RunStatus.outputs).getD []

def statusOrNew (run : Run) : RunStatus :=
  run.status.getD {}

def updateStatus (f : RunStatus → RunStatus) (run : Run) : Run :=
  { run with status := some (f run.statusOrNew) }

end Run

end Experiment
