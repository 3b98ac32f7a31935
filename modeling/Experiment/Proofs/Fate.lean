import Experiment.Proofs.Confinement
import Experiment.Proofs.Finalization
import Experiment.Proofs.Preparation

/-!
# What comes of a task

The fate of a run is told by its runtime, by whether the answer is the text of a run and by whether
report and record of the result can be written. It says what executing the run returns, and which
record a sweep keeps of it.
-/

namespace Experiment

theorem storedRuns_of_isArtifact {calls : List DatabaseCall} (h : ∀ c ∈ calls, c.isArtifact) :
    storedRuns calls = [] := by
  refine List.filter_eq_nil_iff.2 fun c hc => ?_
  have ha := h c hc
  cases c <;> simp_all [DatabaseCall.isArtifact, DatabaseCall.isRun]

namespace Runtime
variable {r : Runtime}

/-- It stores no run itself, whatever else it puts down. -/
def StoresNone (r : Runtime) : Prop :=
  ∀ task w, ∃ own : Entries, ((r.execute task).on w).2.toJournal = w.toJournal.add own ∧
    storedRuns own.ledger = []

theorem Confined.storesNone (h : r.Confined) : r.StoresNone := by
  intro task w
  obtain ⟨lines, calls, hj, hc⟩ := h task w
  exact ⟨_, hj, storedRuns_of_isArtifact hc⟩

theorem Confined.handed_eq_nil (h : r.Confined) {task : Run} {w : World} {own : Entries}
    (ho : ((r.execute task).on w).2.toJournal = w.toJournal.add own) : own.handed = [] := by
  obtain ⟨lines, calls, hj, -⟩ := h task w
  have hhanded := congrArg (fun j : Journal => j.handed) (ho.symm.trans hj)
  exact List.append_cancel_left hhanded

end Runtime

inductive Fate where
  /-- The runtime was not asked. -/
  | rejected (cause : RunError)
  | crashed (cause : RuntimeError)
  /-- What the runtime answered is not the text of a run. -/
  | unreadable (reason : String)
  | silent
  /-- The report or the record of the result could not be written. -/
  | refused (task result : Run) (cause : RunError)
  | kept (task result : Run)
deriving DecidableEq

namespace Fate

/-- Why there is no result. -/
def failure? : Fate → Option RunError
  | .rejected e => some e
  | .crashed e => some (.ofRuntime e)
  | .unreadable reason => some (.parse reason)
  | .silent => none
  | .refused _ _ e => some e
  | .kept _ _ => none

/-- The result of a task that kept one, completed at this time; silence finalizes to the empty run. -/
def outcome (now : Timestamp) (f : Fate) : Except RunError Run :=
  match f with
  | .kept task result => .ok ((Run.carryIdentity task result).completed now)
  | f =>
    match f.failure? with
    | some e => .error e
    | none => .ok {}

/-- What a sweep keeps of the task. -/
def record (now : Timestamp) (task : Run) (f : Fate) : Run :=
  match f with
  | .kept task result => (Run.carryIdentity task result).completed now
  | f =>
    match f.failure? with
    | some e => task.failed now e.message
    | none => task

/-- The state that a sweep shows for the task. -/
def state? : Fate → Option RunState
  | .silent => none
  | .kept _ result => if result.state? = some .error then some .error else some .completed
  | _ => some .error

theorem record_of_failure {f : Fate} {e : RunError} (h : f.failure? = some e) (now : Timestamp)
    (task : Run) : f.record now task = task.failed now e.message := by
  cases f <;> cases h <;> rfl

theorem state?_record (now : Timestamp) {task : Run} (ht : task.status = none) (f : Fate) :
    (f.record now task).state? = f.state? := by
  cases f with
  | silent =>
      change task.status.bind _ = _
      rw [ht]
      rfl
  | kept task result => exact Run.state?_completed now _
  | rejected _ | crashed _ | unreadable _ | refused _ _ _ => exact Run.state?_failed now _ _

end Fate

namespace Executor
variable {x : Executor} {run task : Run} {w u v w' : World} {e : RunError}

/-- The fate of a result. -/
def fateOfResult (x : Executor) (task result : Run) (w : World) : Fate :=
  let final := Run.carryIdentity task result
  match (x.writeReport final).on w with
  | (.error e, _) => .refused task result e
  | (.ok (), v) =>
    match ((x.save (final.completed v.clock)).on v).1 with
    | .error e => .refused task result e
    | .ok () => .kept task result

def fateOfAnswer (x : Executor) (task : Run) (w : World) : Except RuntimeError RawResult → Fate
  | .error e => .crashed e
  | .ok raw =>
    match raw.parse with
    | .error text => .unreadable (x.complaint text)
    | .ok none => .silent
    | .ok (some result) => x.fateOfResult task result w

/-- The world in which the runtime is asked. -/
def handed (task : Run) (w : World) : World :=
  w.noting { events := [task.startEvent], handed := [task] }

/-- The fate of a run that has been prepared. -/
def fateOfTask (x : Executor) (task : Run) (w : World) : Fate :=
  let answer := (x.runtime.execute task).on (handed task w)
  x.fateOfAnswer task answer.2 answer.1

def fate (x : Executor) (run : Run) (w : World) : Fate :=
  match (x.prepare run).on w with
  | (.error e, _) => .rejected e
  | (.ok task, v) => x.fateOfTask task v

theorem on_settle (x : Executor) (task : Run) (raw : RawResult) (w : World) :
    (x.settle task raw).on w = match raw.parse with
      | .error text => (.error (.parse (x.complaint text)), w)
      | .ok none => (.ok {}, w)
      | .ok (some result) => (x.finalize (.structured (Run.carryIdentity task result))).on w := by
  rw [settle, Attempt.on_bind, Attempt.on_ofExcept]
  cases hp : raw.parse with
  | error text => rw [parse_of_error hp]
  | ok found =>
      rw [parse_of_ok hp]
      cases found <;> rfl

theorem on_perform (x : Executor) (task : Run) (w : World) :
    (x.perform task).on w = match (x.runtime.execute task).on (handed task w) with
      | (.error e, v) => (.error (.ofRuntime e), v)
      | (.ok raw, v) => (x.settle task raw).on v := by
  have hw : ((World.handOver task).on (task.start.on w).2).2 = handed task w := by
    rw [Run.on_start, World.on_handOver, World.noting_noting, Entries.append_mk]
    rfl
  rw [perform, Attempt.on_lift_bind, Attempt.on_lift_bind, hw, Attempt.on_bind, Attempt.on_mapError]
  cases (x.runtime.execute task).on (handed task w) with
  | mk r v => cases r <;> rfl

theorem on_execute_of_crashed {cause : RuntimeError} (hp : (x.prepare run).on w = (.ok task, u))
    (ha : (x.runtime.execute task).on (handed task u) = (.error cause, v)) :
    (x.execute run).on w = (.error (.ofRuntime cause), v) := by
  rw [execute, Attempt.on_bind_of_ok hp, on_perform, ha]

theorem on_execute_of_answer {raw : RawResult} (hp : (x.prepare run).on w = (.ok task, u))
    (ha : (x.runtime.execute task).on (handed task u) = (.ok raw, v)) :
    (x.execute run).on w = (x.settle task raw).on v := by
  rw [execute, Attempt.on_bind_of_ok hp, on_perform, ha]

/-- A result that the runtime gave is finalized, whatever it leaves out. -/
theorem on_execute_of_result {raw : RawResult} {result : Run}
    (hp : (x.prepare run).on w = (.ok task, u))
    (ha : (x.runtime.execute task).on (handed task u) = (.ok raw, v))
    (hr : raw.parse = .ok (some result)) :
    (x.execute run).on w = (x.finalize (.structured (Run.carryIdentity task result))).on v ∧
      (RawResult.structured (Run.carryIdentity task result)).parse =
        .ok (some (Run.carryIdentity task result)) := by
  refine ⟨?_, RawResult.parse_structured
    (Run.isEmpty_carryIdentity result (prepares_of_prepare hp).uid)⟩
  rw [on_execute_of_answer hp ha, on_settle, hr]

theorem record_of_result {raw : RawResult} {result r : Run}
    (hp : (x.prepare run).on w = (.ok task, u))
    (ha : (x.runtime.execute task).on (handed task u) = (.ok raw, v))
    (hr : raw.parse = .ok (some result)) (h : (x.execute run).on w = (.ok r, w')) :
    r = (Run.carryIdentity task result).completed v.clock ∧
      w'.ledger = v.ledger ++ x.keeping (Secrets.resolve v.environment result) r := by
  obtain ⟨hx, hn⟩ := on_execute_of_result hp ha hr
  rw [hx] at h
  obtain ⟨rfl, hj⟩ := finalize_eq_ok hn h
  rw [hj, Journal.ledger_add]
  exact ⟨rfl, rfl⟩

/-- What finalizing a result comes to. -/
theorem outcome_finalize (x : Executor) (result : Run) (hu : task.uid ≠ "") (w : World) :
    ∃ now, ((x.finalize (.structured (Run.carryIdentity task result))).on w).1 =
      (x.fateOfResult task result w).outcome now := by
  rw [on_finalize (RawResult.parse_structured (Run.isEmpty_carryIdentity result hu)),
    Attempt.on_bind, fateOfResult]
  cases (x.writeReport (Run.carryIdentity task result)).on w with
  | mk r v =>
      cases r with
      | error e => exact ⟨v.clock, rfl⟩
      | ok _ =>
          refine ⟨v.clock, ?_⟩
          dsimp only
          rw [Attempt.on_lift_bind, Run.on_complete, Attempt.on_bind]
          cases (x.save ((Run.carryIdentity task result).completed v.clock)).on v with
          | mk r' v' => cases r' <;> rfl

theorem outcome_perform (x : Executor) (hu : task.uid ≠ "") (w : World) :
    ∃ now, ((x.perform task).on w).1 = (x.fateOfTask task w).outcome now := by
  rw [on_perform, fateOfTask]
  cases (x.runtime.execute task).on (handed task w) with
  | mk r v =>
      cases r with
      | error e => exact ⟨v.clock, rfl⟩
      | ok raw =>
          dsimp only [fateOfAnswer]
          rw [on_settle]
          cases raw.parse with
          | error e => exact ⟨v.clock, rfl⟩
          | ok found =>
              cases found with
              | none => exact ⟨v.clock, rfl⟩
              | some result => exact outcome_finalize x result hu v

theorem outcome_execute (x : Executor) (run : Run) (w : World) :
    ∃ now, ((x.execute run).on w).1 = (x.fate run w).outcome now := by
  unfold execute fate
  rw [Attempt.on_bind]
  cases hp : (x.prepare run).on w with
  | mk r v =>
      cases r with
      | error e => exact ⟨v.clock, rfl⟩
      | ok task => exact outcome_perform x (prepares_of_prepare hp).uid v

theorem execute_cases (x : Executor) (run : Run) (w : World) : ∃ v,
    (∃ e, (x.fate run w).failure? = some e ∧ (x.execute run).on w = (.error e, v)) ∨
    (x.fate run w = .silent ∧ (x.execute run).on w = (.ok {}, v)) ∨
    ∃ now task result, x.fate run w = .kept task result ∧
      (x.execute run).on w = (.ok ((Run.carryIdentity task result).completed now), v) := by
  obtain ⟨now, ho⟩ := x.outcome_execute run w
  have he : (x.execute run).on w = ((x.fate run w).outcome now, ((x.execute run).on w).2) := by
    rw [← ho]
  refine ⟨((x.execute run).on w).2, ?_⟩
  cases hf : x.fate run w with
  | silent =>
      rw [hf] at he
      exact .inr (.inl ⟨rfl, he⟩)
  | kept task result =>
      rw [hf] at he
      exact .inr (.inr ⟨now, task, result, rfl, he⟩)
  | rejected _ | crashed _ | unreadable _ | refused _ _ _ =>
      rw [hf] at he
      exact .inl ⟨_, rfl, he⟩

/-- What has been executed has gone through every step, or its runtime was silent. -/
theorem execute_eq_ok {r : Run} (h : (x.execute run).on w = (.ok r, w')) :
    ∃ task u raw v, (x.prepare run).on w = (.ok task, u) ∧
      (x.runtime.execute task).on (handed task u) = (.ok raw, v) ∧
      (raw.parse = .ok none ∧ r = {} ∨ ∃ result v₁ v₂, raw.parse = .ok (some result) ∧
        (x.writeReport (Run.carryIdentity task result)).on v = (.ok (), v₁) ∧
        r = (Run.carryIdentity task result).completed v₁.clock ∧
        (x.save r).on v₁ = (.ok (), v₂)) := by
  obtain ⟨task, u, hp, -⟩ := Attempt.on_bind_eq_ok.1 h
  cases ha : (x.runtime.execute task).on (handed task u) with
  | mk answer v =>
      cases answer with
      | error e =>
          rw [on_execute_of_crashed hp ha] at h
          cases h
      | ok raw =>
          refine ⟨task, u, raw, v, hp, ha, ?_⟩
          rw [on_execute_of_answer hp ha, on_settle] at h
          cases hparse : raw.parse with
          | error e => simp [hparse] at h
          | ok found =>
              rw [hparse] at h
              cases found with
              | none =>
                  cases h
                  exact .inl ⟨rfl, rfl⟩
              | some result =>
                  refine .inr ⟨result, ?_⟩
                  have hn := Run.isEmpty_carryIdentity result (prepares_of_prepare hp).uid
                  dsimp only at h
                  rw [on_finalize (RawResult.parse_structured hn)] at h
                  obtain ⟨_, v₁, hr, h⟩ := Attempt.on_bind_eq_ok.1 h
                  rw [Attempt.on_lift_bind, Run.on_complete] at h
                  obtain ⟨_, v₂, hs, h⟩ := Attempt.on_bind_eq_ok.1 h
                  cases h
                  exact ⟨v₁, v₂, rfl, hr, rfl, hs⟩

/-- What fails is refused when it is prepared, or fails in its runtime or after it. -/
theorem execute_eq_error (h : (x.execute run).on w = (.error e, w')) :
    ((x.prepare run).on w = (.error e, w) ∧ w' = w) ∨
      ∃ task u answer v, (x.prepare run).on w = (.ok task, u) ∧
        (x.runtime.execute task).on (handed task u) = (answer, v) ∧
        ((∃ cause, answer = .error cause ∧ e = .ofRuntime cause ∧ w' = v) ∨
          (∃ raw, answer = .ok raw) ∧ e.isConfiguration = false ∧
            ∃ calls, storedRuns calls = [] ∧ w'.toJournal = v.toJournal.add { ledger := calls }) := by
  obtain hp | ⟨task, u, hp, h⟩ := Attempt.on_bind_eq_error.1 h
  · obtain ⟨-, rfl⟩ := prepare_eq_error hp
    exact .inl ⟨hp, rfl⟩
  · rw [on_perform] at h
    cases ha : (x.runtime.execute task).on (handed task u) with
    | mk answer v =>
        refine .inr ⟨task, u, answer, v, hp, ha, ?_⟩
        rw [ha] at h
        cases answer with
        | error cause =>
            cases h
            exact .inl ⟨cause, rfl, rfl, rfl⟩
        | ok raw =>
            refine .inr ⟨⟨raw, rfl⟩, ?_⟩
            dsimp only at h
            rw [on_settle] at h
            cases hr : raw.parse with
            | error e' =>
                rw [hr] at h
                cases h
                exact ⟨rfl, [], rfl, (Journal.add_nothing _).symm⟩
            | ok found =>
                rw [hr] at h
                cases found with
                | none => cases h
                | some result =>
                    have hn := Run.isEmpty_carryIdentity result (prepares_of_prepare hp).uid
                    exact finalize_eq_error (RawResult.parse_structured hn) h

theorem prepare_of_fate_eq_kept {result : Run} (h : x.fate run w = .kept task result) :
    ∃ u, (x.prepare run).on w = (.ok task, u) := by
  unfold fate at h
  cases hp : (x.prepare run).on w with
  | mk r u =>
      rw [hp] at h
      cases r with
      | error e => cases h
      | ok prepared =>
          refine ⟨u, ?_⟩
          dsimp only [fateOfTask, fateOfAnswer] at h
          split at h
          · cases h
          · split at h
            · cases h
            · cases h
            · dsimp only [fateOfResult] at h
              split at h
              · cases h
              · split at h <;> cases h
                rfl

theorem prepares_of_fate_eq_kept {result : Run} (h : x.fate run w = .kept task result) :
    x.Prepares run task := by
  obtain ⟨u, hp⟩ := prepare_of_fate_eq_kept h
  exact prepares_of_prepare hp

theorem failure_of_result {result : Run}
    (hf : (x.fateOfResult task result w).failure? = some e) : e.isConfiguration = false := by
  dsimp only [fateOfResult] at hf
  cases hr : (x.writeReport (Run.carryIdentity task result)).on w with
  | mk r v =>
      rw [hr] at hf
      cases r with
      | error e' =>
          cases hf
          exact error_writeReport hr
      | ok _ =>
          dsimp only at hf
          cases hs : (x.save ((Run.carryIdentity task result).completed v.clock)).on v with
          | mk r' v' =>
              rw [hs] at hf
              cases r' with
              | error e' =>
                  cases hf
                  exact (journal_save_of_error hs).1
              | ok _ => cases hf

/-- Nothing is found wrong with the definition of a task that has been prepared. -/
theorem failure_of_prepared (hr : x.runtime.Reliable) (hp : (x.prepare task).on w = (.ok task, v))
    (hf : (x.fate task w).failure? = some e) : e.isConfiguration = false := by
  rw [fate, hp] at hf
  dsimp only at hf
  rw [fateOfTask] at hf
  have hm := hr task (handed task v)
  cases ha : (x.runtime.execute task).on (handed task v) with
  | mk r u =>
      rw [ha] at hf hm
      cases r with
      | error e' =>
          cases hf
          rw [RunError.isConfiguration_ofRuntime]
          exact hm e' (validate_of_prepared hp) rfl
      | ok raw =>
          dsimp only [fateOfAnswer] at hf
          cases hparse : raw.parse with
          | error e' =>
              rw [hparse] at hf
              cases hf
              rfl
          | ok found =>
              rw [hparse] at hf
              cases found with
              | none => cases hf
              | some result => exact failure_of_result hf

/-- The world once the runtime has answered a task. -/
def answered (x : Executor) (task : Run) (w : World) : World :=
  ((x.runtime.execute task).on (handed task w)).2

/-- While it is asked, the runtime tells these lines and records these artifacts. -/
structure Utters (x : Executor) (task : Run) (w : World) (lines : List String)
    (artifacts : List DatabaseCall) : Prop where
  isArtifact : ∀ c ∈ artifacts, c.isArtifact
  journal : (x.answered task w).toJournal = (handed task w).toJournal.add
    { events := lines.map (.logLine task.uid), ledger := artifacts }

theorem utters_of_confined (hc : x.runtime.Confined) (task : Run) (w : World) :
    ∃ lines artifacts, x.Utters task w lines artifacts := by
  obtain ⟨lines, artifacts, hj, ha⟩ := hc task (handed task w)
  exact ⟨lines, artifacts, ha, hj⟩

/-- What performing a task puts down: its start, what its runtime does, and what goes with
finalizing. -/
theorem journal_perform {task : Run} {w : World} {own : Entries}
    (ho : (x.answered task w).toJournal = (handed task w).toJournal.add own) :
    ∃ (events : List Event) (calls : List DatabaseCall),
      ((x.perform task).on w).2.toJournal = w.toJournal.add
        ({ events := [task.startEvent], handed := [task] } ++ (own ++ { events, ledger := calls })) ∧
      x.Closes ((x.perform task).on w).1 events calls := by
  have before : ∀ (v : World) events calls, v.toJournal = (x.answered task w).toJournal.add
      { events, ledger := calls } → v.toJournal = w.toJournal.add
        ({ events := [task.startEvent], handed := [task] } ++ (own ++ { events, ledger := calls })) := by
    intro v events calls hv
    rw [hv, ho, handed, World.toJournal_noting, Journal.add_add, Journal.add_add]
  rw [on_perform]
  rw [answered] at before
  cases he : (x.runtime.execute task).on (handed task w) with
  | mk r v =>
      rw [he] at before
      have last := before v [] [] (Journal.add_nothing _).symm
      cases r with
      | error e => exact ⟨[], [], last, .failed _ [] rfl⟩
      | ok raw =>
          dsimp only
          rw [on_settle]
          cases raw.parse with
          | error e => exact ⟨[], [], last, .failed _ [] rfl⟩
          | ok found =>
              cases found with
              | none => exact ⟨[], [], last, .silent⟩
              | some result =>
                  obtain ⟨events, calls, hf, hx⟩ :=
                    x.closes_finalize (.structured (Run.carryIdentity task result)) v
                  exact ⟨events, calls, before _ events calls hf, hx⟩

end Executor

end Experiment
