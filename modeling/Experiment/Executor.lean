import Experiment.Database
import Experiment.Report.Renderer
import Experiment.Run.State
import Experiment.Runtime.Basic

/-!
# Executing one run

An executor prepares a run, hands it to its runtime and finalizes the result: the report is written,
the state completed and the record stored, and only then is the run announced as finished.
-/

namespace Experiment

structure Executor where
  runtime : Runtime
  database : Option Database := none
  report : Option Report.Renderer := none
  /-- What the reader of JSON has to say of a text that is no run. -/
  complaint : String → String := fun _ => "the text is no run structure"

namespace Executor

/-- The run with its kind filled in, if it asks for this runtime or for none. -/
def withKind (x : Executor) (run : Run) : Except RunError Run :=
  let requested := Text.trim run.spec.runtime.kind
  if requested = "" then
    .ok { run with
      spec := { run.spec with runtime := { run.spec.runtime with kind := x.runtime.kind } } }
  else if requested = x.runtime.kind then .ok run
  else
    .error (.configuration (.runtimeMismatch run.metadata.name requested x.runtime.kind))

/-- What is wrong with a run, before anything is done; `run` is the run as far as it got. -/
def check (x : Executor) (run : Run) : Run × Except RunError Unit :=
  match x.withKind run with
  | .error e => (run, .error e)
  | .ok run =>
    match x.runtime.validate run with
    | .error e => (run, .error (.ofRuntime e))
    | .ok () => (run, .ok ())

def prepare (x : Executor) (run : Run) : Attempt RunError Run := do
  match x.check run with
  | (_, .error e) => throw e
  | (run, .ok ()) => run.assignUid

/-- The secrets are those of the run that is stored. -/
def save (x : Executor) (run : Run) : Attempt RunError Unit :=
  match x.database with
  | none => pure ()
  | some db => Attempt.mapError RunError.persistence do
    let secrets := Secrets.resolve (← get).environment run
    db.connect secrets
    db.storeRun run run.uid run.metadata.project true

def writeReport (x : Executor) (run : Run) : Attempt RunError Unit :=
  match x.report with
  | none => pure ()
  | some r => r.renderAndWrite run

def parse (x : Executor) (raw : RawResult) : Except RunError (Option Run) :=
  raw.parse.mapError fun text => .parse (x.complaint text)

theorem parse_of_ok {x : Executor} {raw : RawResult} {found : Option Run}
    (h : raw.parse = .ok found) : x.parse raw = .ok found := by
  rw [parse, h]
  rfl

theorem parse_of_error {x : Executor} {raw : RawResult} {text : String}
    (h : raw.parse = .error text) : x.parse raw = .error (.parse (x.complaint text)) := by
  rw [parse, h]
  rfl

/-- No result finalizes to the run in which nothing is set. -/
def finalize (x : Executor) (raw : RawResult) : Attempt RunError Run := do
  match ← Attempt.ofExcept (x.parse raw) with
  | none => return {}
  | some result =>
    x.writeReport result
    let result ← result.complete
    x.save result
    result.finish
    return result

/-- The answer of a runtime, finalized with what it left out of its task's identity. -/
def settle (x : Executor) (task : Run) (raw : RawResult) : Attempt RunError Run := do
  match ← Attempt.ofExcept (x.parse raw) with
  | some result => x.finalize (.structured (Run.carryIdentity task result))
  | none => x.finalize .empty

/-- A run that has been prepared is the task that its runtime is handed. -/
def perform (x : Executor) (task : Run) : Attempt RunError Run := do
  task.start
  World.handOver task
  let raw ← Attempt.mapError RunError.ofRuntime (x.runtime.execute task)
  x.settle task raw

def execute (x : Executor) (run : Run) : Attempt RunError Run := do
  x.perform (← x.prepare run)

/-- The task in the state of error; a record that cannot be stored is let go. -/
def recordFailure (x : Executor) (task : Run) (e : RunError) : Action Run := do
  let failed ← task.fail e.message
  let _ ← (x.save failed).run
  failed.finish
  return failed

end Executor

end Experiment
