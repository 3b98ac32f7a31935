import Experiment.Runtime.Handler
import Experiment.Runtime.Process
import Experiment.Runtime.Scripted

/-!
# What a runtime may do

A runtime is handed a task and a listener. A confined one tells the listener lines of its task and
records artifacts, and puts nothing else down: it neither announces nor stores runs, and hands no
task over. A reliable one does not miss, once asked, what it has not missed when it validated the
task. The runtimes of this library are confined, the one of handlers if its handler is, and those of
handlers and processes are reliable.
-/

namespace Experiment

def DatabaseCall.isArtifact : DatabaseCall → Bool
  | .artifact _ _ _ _ => true
  | _ => false

namespace Runtime

def Confined (r : Runtime) : Prop :=
  ∀ task w, ∃ (lines : List String) (calls : List DatabaseCall),
    ((r.execute task).on w).2.toJournal =
      w.toJournal.add { events := lines.map (.logLine task.uid), ledger := calls } ∧
    ∀ c ∈ calls, c.isArtifact

theorem confined_scripted (rule : Run → Except RuntimeError RawResult) (kind : String) :
    (scripted rule kind).Confined :=
  fun _ w => ⟨[], [], (Journal.add_nothing w.toJournal).symm, by simp⟩

theorem quiet_launch (i : Launch) : (Process.launch i).Quiet := by
  intro w
  unfold Process.launch
  rw [Attempt.on_bind_of_ok (Attempt.on_get w), Attempt.on_bind, Attempt.on_ofExcept]
  cases w.programs w.launched w.files
    { i with environment := OrderedMap.extend w.environment i.environment } <;> rfl

theorem journal_followItems (task : Run) (last : Option String) (items : List OutputItem)
    (w : World) : ∃ lines : List String, ((followItems task last items).on w).2.toJournal =
      w.toJournal.add { events := lines.map (.logLine task.uid) } := by
  induction items generalizing last w with
  | nil => exact ⟨[], (Journal.add_nothing w.toJournal).symm⟩
  | cons item rest ih =>
      cases item with
      | line text =>
          obtain ⟨lines, hl⟩ := ih (some text) (w.noting { events := [.logLine task.uid text] })
          refine ⟨text :: lines, ?_⟩
          rw [followItems, Attempt.on_bind_of_ok (Attempt.on_lift _ w), World.on_emit, hl]
          simp [Journal.add_add]
      | exit success code errors =>
          cases success with
          | true => exact ih last w
          | false => exact ⟨[], (Journal.add_nothing w.toJournal).symm⟩

theorem followItems_ok (task : Run) (last : Option String) (items : List OutputItem) (w : World) :
    ∃ raw, ((followItems task last items).on w).1 = .ok raw := by
  induction items generalizing last w with
  | nil => exact ⟨_, rfl⟩
  | cons item rest ih =>
      cases item with
      | line text =>
          rw [followItems, Attempt.on_bind_of_ok (Attempt.on_lift _ w)]
          exact ih _ _
      | exit success code errors =>
          cases success with
          | true => exact ih last w
          | false => exact ⟨_, rfl⟩

theorem quiet_stream (command : String) (arguments : List String) (workdir : Option String)
    (task : String) : (OutputItem.stream command arguments workdir task).Quiet :=
  .bind (.mapError _ (quiet_launch _)) fun _ => .pure _

theorem on_process {task : Run} {u v : World} {p : ProcessOutput}
    (hv : process.validate task = .ok ())
    (hl : (Process.launch
      { command := task.spec.runtime.command
        arguments := task.spec.runtime.args
        workdir := task.spec.runtime.workdir
        environment := [(OutputItem.taskVariable, task.encode.compact)] }).on u = (.ok p, v)) :
    (process.execute task).on u = (answer task p).on v := by
  have hstream : (OutputItem.stream task.spec.runtime.command task.spec.runtime.args
      task.spec.runtime.workdir task.encode.compact).on u = (.ok (OutputItem.ofOutput p), v) := by
    rw [OutputItem.stream, Attempt.on_bind_of_ok (Attempt.on_mapError_eq_ok.2 hl)]
    rfl
  change Attempt.on (Attempt.ofExcept (hasCommand task) >>= _) u = _
  change hasCommand task = .ok () at hv
  rw [Attempt.on_bind, Attempt.on_ofExcept, hv]
  exact Attempt.on_bind_of_ok hstream

theorem confined_process : process.Confined := by
  intro task w
  have hq := quiet_stream task.spec.runtime.command task.spec.runtime.args
    task.spec.runtime.workdir task.encode.compact w
  change ∃ lines calls, (Attempt.on (Attempt.ofExcept (hasCommand task) >>= _) w).2.toJournal = _ ∧ _
  rw [Attempt.on_bind, Attempt.on_ofExcept]
  cases hasCommand task with
  | error e => exact ⟨[], [], (Journal.add_nothing w.toJournal).symm, by simp⟩
  | ok _ =>
      change ∃ lines calls, (Attempt.on (OutputItem.stream _ _ _ _ >>= _) w).2.toJournal = _ ∧ _
      rw [Attempt.on_bind]
      cases hs : (OutputItem.stream task.spec.runtime.command task.spec.runtime.args
        task.spec.runtime.workdir task.encode.compact).on w with
      | mk r v =>
          rw [hs] at hq
          cases r with
          | error e => exact ⟨[], [], hq.trans (Journal.add_nothing w.toJournal).symm, by simp⟩
          | ok items =>
              obtain ⟨lines, hl⟩ := journal_followItems task none items v
              exact ⟨lines, [], by rw [hl, hq], by simp⟩

end Runtime

/-- Whatever else a handler does, it puts down nothing but artifacts. -/
def Handler.Confined (h : Handler) : Prop :=
  ∀ c w, ∃ calls : List DatabaseCall,
    ((h c).on w).2.toJournal = w.toJournal.add { ledger := calls } ∧ ∀ c ∈ calls, c.isArtifact

theorem Runtime.confined_handler {h : Option Handler} (hh : ∀ g, h = some g → g.Confined)
    (policy : ArtifactPolicy) : (Runtime.handler h policy).Confined := by
  intro task w
  cases h with
  | none => exact ⟨[], [], (Journal.add_nothing w.toJournal).symm, by simp⟩
  | some g =>
      obtain ⟨calls, hj, hc⟩ := hh g rfl (RunContext.ofRun task policy) w
      refine ⟨[], calls, ?_, hc⟩
      rw [List.map_nil, ← hj]
      rfl

/-- Something that had to be there when the run was validated. -/
def RuntimeError.isMissing : RuntimeError → Bool
  | .missingHandler _ | .missingCommand _ => true
  | _ => false

theorem RunError.isConfiguration_ofRuntime (e : RuntimeError) :
    (RunError.ofRuntime e).isConfiguration = e.isMissing := by
  cases e <;> rfl

namespace Runtime

/-- What has been validated is not found missing when it is executed. -/
def Reliable (r : Runtime) : Prop :=
  ∀ task w e, r.validate task = .ok () → ((r.execute task).on w).1 = .error e →
    e.isMissing = false

theorem reliable_process : process.Reliable := by
  intro task w e hv he
  change hasCommand task = .ok () at hv
  change (Attempt.on (Attempt.ofExcept (hasCommand task) >>= _) w).1 = _ at he
  rw [Attempt.on_bind, Attempt.on_ofExcept, hv] at he
  dsimp only at he
  cases hs : (OutputItem.stream task.spec.runtime.command task.spec.runtime.args
    task.spec.runtime.workdir task.encode.compact).on w with
  | mk r v =>
      cases r with
      | error e' =>
          rw [Attempt.on_bind_of_error hs] at he
          obtain hl | ⟨_, _, _, hl⟩ := Attempt.on_bind_eq_error.1 hs
          · obtain ⟨_, _, rfl⟩ := Attempt.on_mapError_eq_error.1 hl
            cases he
            rfl
          · cases hl
      | ok items =>
          obtain ⟨raw, hr⟩ := followItems_ok task none items v
          rw [Attempt.on_bind_of_ok hs, hr] at he
          cases he

theorem reliable_handler (h : Option Handler) (policy : ArtifactPolicy) :
    (handler h policy).Reliable := by
  intro task w e hv he
  cases h with
  | none => cases hv
  | some g => cases he

/-- The runtimes of this library. A mock is one that validates nothing and answers as it likes. -/
inductive Builtin : Runtime → Prop where
  | process : Builtin process
  | handler (h : Option Handler) (policy : ArtifactPolicy) (hh : ∀ g, h = some g → g.Confined) :
      Builtin (handler h policy)
  | mock (kind : String) (execute : Run → Attempt RuntimeError RawResult)
      (hc : Confined { kind, execute }) : Builtin { kind, execute }

namespace Builtin
variable {r : Runtime}

theorem confined (h : r.Builtin) : r.Confined := by
  cases h with
  | process => exact confined_process
  | handler h policy hh => exact confined_handler hh policy
  | mock kind execute hc => exact hc

/-- Nothing but the runtime that a run asks for is validated. -/
theorem validate_congr (h : r.Builtin) {a b : Run} (hab : a.spec.runtime = b.spec.runtime) :
    r.validate a = r.validate b := by
  cases h with
  | process =>
      change hasCommand a = hasCommand b
      rw [hasCommand, hasCommand, hab]
  | handler h policy hh => rfl
  | mock kind execute hc => rfl

end Builtin

end Runtime

end Experiment
