import Experiment.World

/-!
# The life of a run

A run is given a uid, started, completed or failed, and finished. A state of error is never turned
into another one.
-/

namespace Experiment.Run

def assignUid (run : Run) : Action Run := do
  if run.uid = "" then
    let uid ← World.freshUid
    return { run with metadata := { run.metadata with uid := some uid } }
  else return run

theorem on_assignUid_of_uid {run : Run} (h : run.uid ≠ "") (w : World) :
    run.assignUid.on w = (run, w) := by
  rw [assignUid, if_neg h]
  rfl

theorem on_assignUid (run : Run) (w : World) :
    ∃ (uid : Option String) (issued : Nat), run.assignUid.on w =
        ({ run with metadata := { run.metadata with uid } }, { w with issued }) ∧
      uid.getD "" ≠ "" ∧ (run.uid ≠ "" → uid = run.metadata.uid) := by
  by_cases h : run.uid = ""
  · refine ⟨some (World.uidOf w.seed w.issued), w.issued + 1, ?_, World.uidOf_ne_empty _ _,
      fun hn => absurd h hn⟩
    rw [assignUid, if_pos h]
    rfl
  · exact ⟨run.metadata.uid, w.issued, on_assignUid_of_uid h w, h, fun _ => rfl⟩

def startEvent (run : Run) : Event :=
  .runStarted run.uid run.metadata.name run.metadata.iteration

def start (run : Run) : Action Unit :=
  World.emit run.startEvent

@[simp] theorem on_start (run : Run) (w : World) :
    run.start.on w = ((), w.noting { events := [run.startEvent] }) := rfl

def completeStatus (now : Timestamp) (s : RunStatus) : RunStatus :=
  { s with
    state := if s.state = some .error then s.state else some .completed
    lastUpdate := some now }

def completed (now : Timestamp) (run : Run) : Run :=
  run.updateStatus (completeStatus now)

@[simp] theorem metadata_completed (now : Timestamp) (run : Run) :
    (run.completed now).metadata = run.metadata := rfl

@[simp] theorem spec_completed (now : Timestamp) (run : Run) :
    (run.completed now).spec = run.spec := rfl

theorem status_completed_ne_none (now : Timestamp) (run : Run) :
    (run.completed now).status ≠ none := by
  simp [completed, updateStatus]

theorem state?_completed (now : Timestamp) (run : Run) :
    (run.completed now).state? =
      if run.state? = some .error then some .error else some .completed := by
  cases run with
  | mk metadata spec status =>
      cases status with
      | none => rfl
      | some s =>
          by_cases h : s.state = some .error <;>
            simp [completed, updateStatus, statusOrNew, completeStatus, state?, h]

def complete (run : Run) : Action Run := do
  let now ← World.now
  return run.completed now

@[simp] theorem on_complete (run : Run) (w : World) :
    run.complete.on w = (run.completed w.clock, w) := rfl

def failed (now : Timestamp) (message : String) (run : Run) : Run :=
  run.updateStatus fun s =>
    { s with state := some .error, error := some message, lastUpdate := some now }

@[simp] theorem metadata_failed (now : Timestamp) (message : String) (run : Run) :
    (run.failed now message).metadata = run.metadata := rfl

@[simp] theorem state?_failed (now : Timestamp) (message : String) (run : Run) :
    (run.failed now message).state? = some .error := rfl

def fail (message : String) (run : Run) : Action Run := do
  let now ← World.now
  return run.failed now message

@[simp] theorem on_fail (message : String) (run : Run) (w : World) :
    (run.fail message).on w = (run.failed w.clock message, w) := rfl

def finishEvent (run : Run) : Event :=
  .runFinished run.uid run.metadata.iteration run.state?

def finish (run : Run) : Action Unit :=
  World.emit run.finishEvent

@[simp] theorem on_finish (run : Run) (w : World) :
    run.finish.on w = ((), w.noting { events := [run.finishEvent] }) := rfl

/-- What a result leaves out of parameters, uid and iteration is taken from its task. -/
def carryIdentity (task result : Run) : Run :=
  { result with
    spec := { result.spec with
      parameters :=
        if result.spec.parameters.isEmpty then task.spec.parameters else result.spec.parameters }
    metadata := { result.metadata with
      uid := if result.uid = "" then task.metadata.uid else result.metadata.uid
      iteration :=
        if result.metadata.iteration = 0 then task.metadata.iteration
        else result.metadata.iteration } }

@[simp] theorem status_carryIdentity (task result : Run) :
    (carryIdentity task result).status = result.status := rfl

@[simp] theorem state?_carryIdentity (task result : Run) :
    (carryIdentity task result).state? = result.state? := rfl

@[simp] theorem project_carryIdentity (task result : Run) :
    (carryIdentity task result).metadata.project = result.metadata.project := rfl

theorem uid_carryIdentity (task result : Run) :
    (carryIdentity task result).uid = if result.uid = "" then task.uid else result.uid := by
  change (if result.uid = "" then task.metadata.uid else result.metadata.uid).getD "" = _
  split <;> rfl

theorem iteration_carryIdentity (task result : Run) :
    (carryIdentity task result).metadata.iteration =
      if result.metadata.iteration = 0 then task.metadata.iteration
      else result.metadata.iteration := rfl

theorem isEmpty_eq_false_of_uid {run : Run} (h : run.uid ≠ "") : run.isEmpty = false := by
  refine decide_eq_false fun he => h ?_
  rw [he]
  rfl

theorem isEmpty_eq_false_of_status {run : Run} (h : run.status ≠ none) : run.isEmpty = false := by
  refine decide_eq_false fun he => h ?_
  rw [he]

theorem isEmpty_carryIdentity {task : Run} (result : Run) (h : task.uid ≠ "") :
    (carryIdentity task result).isEmpty = false := by
  apply isEmpty_eq_false_of_uid
  rw [uid_carryIdentity]
  split
  · exact h
  · assumption

end Experiment.Run
