import Experiment.Artifact.Manager
import Experiment.Runtime.Basic

/-!
# Handlers

A handler is a function that runs in this process. Its context gives it the parameters and inputs of
the task and takes its outputs, artifacts and errors; the context ends as the result.
-/

namespace Experiment

structure RunContext where
  run : Run
  artifacts : ArtifactManager
  outputs : OrderedMap Json := []
  error : Option String := none

namespace RunContext

def ofRun (run : Run) (policy : ArtifactPolicy) : RunContext :=
  { run, artifacts := ArtifactManager.forRun run policy }

def param? (c : RunContext) (name : String) : Option Json :=
  OrderedMap.find? name c.run.spec.parameters

def input? (c : RunContext) (key : String) : Option String :=
  OrderedMap.find? key c.run.spec.inputs

def logResult (c : RunContext) (key : String) (value : Json) : RunContext :=
  { c with outputs := OrderedMap.insert key value c.outputs }

def logResults (c : RunContext) (results : List (String × Json)) : RunContext :=
  results.foldl (fun c p => c.logResult p.1 p.2) c

def logArtifact (c : RunContext) (item : LogItem) (o : LogOptions) :
    Action (RunContext × Except RunError Unit) := do
  let (artifacts, outcome) ← c.artifacts.log item o
  return ({ c with artifacts }, outcome)

def setError (c : RunContext) (message : String) : RunContext :=
  { c with error := some message }

/-- The task with what was logged. An error makes the state one of error. -/
def result (c : RunContext) : Run :=
  let run := c.artifacts.storeSpec c.run
  run.updateStatus fun s =>
    let s := { s with outputs := OrderedMap.extend s.outputs c.outputs }
    match c.error with
    | some message => { s with state := some .error, error := some message }
    | none => s

/-- An error that a handler ends with counts as one that it set. -/
def conclude (c : RunContext) : Except RunError Unit → Run
  | .ok () => c.result
  | .error e => (c.setError e.message).result

end RunContext

abbrev Handler := RunContext → Action (RunContext × Except RunError Unit)

namespace Runtime

def runHandler (handler : Handler) (policy : ArtifactPolicy) (task : Run) : Action Run := do
  let (c, outcome) ← handler (RunContext.ofRun task policy)
  return c.conclude outcome

def handler (h : Option Handler) (policy : ArtifactPolicy) : Runtime where
  kind := "handler"
  validate := fun _ => if h.isSome then .ok () else .error (.missingHandler "handler")
  execute := fun task => do
    match h with
    | none => throw (.missingHandler "handler")
    | some h => return .structured (← runHandler h policy task)

end Runtime

end Experiment
