import Experiment.Executor
import Experiment.Sweep.Selector
import Experiment.Sweep.Table
import Experiment.Sweep.Task

/-!
# Executing a sweep

Every point of the grid is executed as a child. What the children came to makes up the status of the
parent, which is then finalized like any other run.
-/

namespace Experiment.Sweep

/-- More failures than are tolerated; without a limit, nothing but failures. -/
def hasFailed (failures total : Nat) : Option Nat → Bool
  | some limit => limit < failures
  | none => 0 < total && failures = total

/-- The record of one child. Only a wrong definition ends the sweep. -/
def runChild (x : Executor) (task : Run) : Attempt RunError Run := do
  match ← (x.execute task).outcome with
  | .ok result => return if result.isEmpty then task else result
  | .error (.configuration cause) => throw (.configuration cause)
  | .error e => x.recordFailure task e

/-- One child, announced as soon as it has its record. -/
def child (x : Executor) (uid : String) (task : Run) : Attempt RunError Run := do
  let record ← runChild x task
  World.emit (.iterationFinished uid task.metadata.iteration record.state?)
  return record

def runChildren (x : Executor) (uid : String) : List Run → Attempt RunError (List Run)
  | [] => pure []
  | task :: rest => do
    let record ← child x uid task
    let records ← runChildren x uid rest
    return record :: records

def failures (records : List Run) : Nat :=
  records.countP fun r => r.state? = some .error

def parentStatus (start : Timestamp) (selector : Option Selector) (maxErrors : Option Nat)
    (records : List Run) : RunStatus :=
  let status : RunStatus :=
    { startTime := some start, iterations := some (IterationTable.ofRuns records) }
  let status := match selector.bind fun s => s.select records with
    | some best =>
      { status with bestIteration := some best.metadata.iteration, outputs := best.outputs }
    | none => status
  if hasFailed (failures records) records.length maxErrors then
    { status with
      state := some .error
      error := some (toString (failures records) ++ " of " ++ toString records.length
        ++ " iterations failed") }
  else status

def parseSelector : Option String → Except RunError (Option Selector)
  | none => .ok none
  | some text => (Selector.parse text).map some

structure Plan where
  parent : Run
  selector : Option Selector
  grid : Grid

namespace Plan

def cursor (p : Plan) : TaskCursor :=
  { base := p.parent, grid := p.grid }

def tasks (p : Plan) : List Run :=
  p.cursor.rest

end Plan

/-- All that can be wrong with a definition is found here. -/
def plan (x : Executor) (definition : Run) (hyperparams : HyperParams) : Attempt RunError Plan := do
  let prepared ← x.prepare definition
  let options := prepared.spec.options
  let selector ← Attempt.ofExcept (parseSelector options.selector)
  let grid ← Attempt.ofExcept (Grid.expand hyperparams options.strategy)
  return { parent := { prepared with spec := { prepared.spec with hyperparams } }, selector, grid }

def conclude (x : Executor) (p : Plan) (start : Timestamp) (records : List Run) :
    Attempt RunError Run := do
  let status := parentStatus start p.selector p.parent.spec.options.maxErrors records
  let finished ← x.finalize (.structured { p.parent with status := some status })
  World.emit (.sweepFinished finished.uid finished.state?
    (finished.status.bind RunStatus.bestIteration))
  return finished

def conduct (x : Executor) (p : Plan) : Attempt RunError Run := do
  let start ← World.now
  World.emit (.sweepStarted p.parent.uid p.grid.size)
  let records ← runChildren x p.parent.uid p.tasks
  conclude x p start records

/-- Without hyperparameters the run is executed as it is. -/
def run (x : Executor) (definition : Run) (hyperparams : HyperParams) : Attempt RunError Run := do
  if hyperparams.isEmpty then x.execute definition
  else conduct x (← plan x definition hyperparams)

end Experiment.Sweep
