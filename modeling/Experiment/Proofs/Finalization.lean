import Experiment.Executor

/-!
# What finalizing puts down

A result is finalized in full or not at all: either its record is kept, its end announced and the
run returned, or an error comes of it, which is never one of configuration, and neither a record nor
an announcement has been put down. A failure is always announced, and its record is let go if the
database refuses it.
-/

namespace Experiment

namespace DatabaseCall

def isRun : DatabaseCall → Bool
  | .run _ _ _ _ => true
  | _ => false

/-- A run is stored under its own uid and project. -/
def ofRun (run : Run) : DatabaseCall :=
  .run run.uid run.metadata.project true run

end DatabaseCall

def storedRuns (calls : List DatabaseCall) : List DatabaseCall :=
  calls.filter DatabaseCall.isRun

@[simp] theorem storedRuns_nil : storedRuns [] = [] := rfl

@[simp] theorem storedRuns_append (a b : List DatabaseCall) :
    storedRuns (a ++ b) = storedRuns a ++ storedRuns b :=
  List.filter_append a b

/-- A database that refuses no connection and no run. -/
def Database.Accepting (db : Database) : Prop :=
  (∀ secrets w, ((db.connect secrets).on w).1 = .ok ()) ∧
    ∀ run uid project commit w, ((db.storeRun run uid project commit).on w).1 = .ok ()

theorem Database.accepting_ledger : (Database.ledger {}).Accepting :=
  ⟨fun _ _ => rfl, fun _ _ _ _ _ => rfl⟩

namespace Report.Renderer

theorem keeps_writeDocument (path : FilePath) (value : Json) :
    (writeDocument path value).Keeps World.apartFromFiles :=
  .mapError _ (World.keeps_writeFile _ _)

theorem keeps_renderAndWrite (r : Renderer) (run : Run) :
    (r.renderAndWrite run).Keeps World.apartFromFiles :=
  .bind (.mapError _ (World.keeps_createDirectories _)) fun _ =>
    .bind (keeps_writeDocument _ _) fun _ => keeps_writeDocument _ _

theorem error_renderAndWrite {r : Renderer} {run : Run} {w w' : World} {e : RunError}
    (h : (r.renderAndWrite run).on w = (.error e, w')) : e.isConfiguration = false := by
  obtain h | ⟨_, v, _, h⟩ := Attempt.on_bind_eq_error.1 h
  · obtain ⟨_, _, rfl⟩ := Attempt.on_mapError_eq_error.1 h
    rfl
  · obtain h | ⟨_, v, _, h⟩ := Attempt.on_bind_eq_error.1 h <;>
      obtain ⟨_, _, rfl⟩ := Attempt.on_mapError_eq_error.1 h <;> rfl

end Report.Renderer

namespace RawResult

theorem parse_structured {run : Run} (h : run.isEmpty = false) :
    (structured run).parse = .ok (some run) := by
  simp only [parse, h, Bool.false_eq_true, if_false]

theorem isEmpty_of_parse {raw : RawResult} {run : Run} (h : raw.parse = .ok (some run)) :
    run.isEmpty = false := by
  have hif : ∀ r : Run, (if r.isEmpty then none else some r) = some run → run.isEmpty = false := by
    intro r hr
    cases hn : r.isEmpty with
    | true => simp [hn] at hr
    | false =>
        simp only [hn, Bool.false_eq_true, if_false, Option.some.injEq] at hr
        exact hr ▸ hn
  unfold parse at h
  cases raw with
  | empty => cases h
  | structured r => exact hif r (Except.ok.inj h)
  | serialized text =>
      dsimp only at h
      split at h
      · cases h
      · cases hp : Run.parse? text with
        | none => simp [hp] at h
        | some r =>
            rw [hp] at h
            exact hif r (Except.ok.inj h)

end RawResult

namespace Executor
variable {x : Executor} {run result : Run} {w w' : World} {e : RunError}

/-- A database there is refuses no record. -/
def Accepting (x : Executor) : Prop :=
  ∀ db, x.database = some db → db.Accepting

/-- The calls that keep a record, if there is a database. -/
def keeping (x : Executor) (secrets : Secrets) (run : Run) : List DatabaseCall :=
  match x.database with
  | none => []
  | some _ => [.connect secrets, .ofRun run]

/-- The call among them that stores it. -/
def storing (x : Executor) (run : Run) : List DatabaseCall :=
  match x.database with
  | none => []
  | some _ => [.ofRun run]

theorem storedRuns_keeping (x : Executor) (secrets : Secrets) (run : Run) :
    storedRuns (x.keeping secrets run) = x.storing run := by
  unfold keeping storing
  cases x.database <;> rfl

theorem keeps_writeReport (x : Executor) (run : Run) :
    (x.writeReport run).Keeps World.apartFromFiles := by
  unfold writeReport
  cases x.report with
  | none => exact .pure ()
  | some r => exact r.keeps_renderAndWrite run

theorem error_writeReport (h : (x.writeReport run).on w = (.error e, w')) :
    e.isConfiguration = false := by
  unfold writeReport at h
  cases hr : x.report with
  | none => simp [hr] at h
  | some r =>
      rw [hr] at h
      exact Report.Renderer.error_renderAndWrite h

theorem journal_save_of_ok (h : (x.save run).on w = (.ok (), w')) :
    w'.toJournal = w.toJournal.add
      { ledger := x.keeping (Secrets.resolve w.environment run) run } := by
  unfold save at h
  cases hd : x.database with
  | none =>
      rw [hd] at h
      cases h
      simp [keeping, hd]
  | some db =>
      rw [hd] at h
      have hm := Attempt.on_mapError_eq_ok.1 h
      rw [Attempt.on_get_bind] at hm
      obtain ⟨_, v, hc, hs⟩ := Attempt.on_bind_eq_ok.1 hm
      have hv := Database.journal_recorded_of_ok (db.quiet_receive _) hc
      have hw := Database.journal_recorded_of_ok (db.quiet_keepRun _ _ _ _) hs
      rw [hw, hv, Journal.add_add]
      simp [keeping, hd, DatabaseCall.ofRun]

theorem journal_save_of_error (h : (x.save run).on w = (.error e, w')) :
    e.isConfiguration = false ∧ ∃ calls, storedRuns calls = [] ∧
      w'.toJournal = w.toJournal.add { ledger := calls } := by
  unfold save at h
  cases hd : x.database with
  | none => simp [hd] at h
  | some db =>
      rw [hd] at h
      obtain ⟨_, hm, rfl⟩ := Attempt.on_mapError_eq_error.1 h
      rw [Attempt.on_get_bind] at hm
      refine ⟨rfl, ?_⟩
      obtain hc | ⟨_, v, hc, hs⟩ := Attempt.on_bind_eq_error.1 hm
      · refine ⟨[], rfl, ?_⟩
        rw [Database.journal_recorded_of_error (db.quiet_receive _) hc]
        exact (Journal.add_nothing _).symm
      · refine ⟨[.connect (Secrets.resolve w.environment run)], rfl, ?_⟩
        rw [Database.journal_recorded_of_error (db.quiet_keepRun _ _ _ _) hs,
          Database.journal_recorded_of_ok (db.quiet_receive _) hc]

theorem save_of_accepting (hx : x.Accepting) (run : Run) (w : World) :
    ((x.save run).on w).1 = .ok () := by
  unfold save
  cases hd : x.database with
  | none => rfl
  | some db =>
      obtain ⟨hc, hs⟩ := hx db hd
      dsimp only
      rw [Attempt.on_mapError, Attempt.on_bind_of_ok (Attempt.on_get w), Attempt.on_bind]
      cases h : (db.connect (Secrets.resolve w.environment run)).on w with
      | mk r v =>
          have hr : r = .ok () := by
            rw [← hc (Secrets.resolve w.environment run) w, h]
          rw [hr]
          exact congrArg (Except.mapError RunError.persistence) (hs run _ _ true v)

theorem on_finalize {raw : RawResult} (hp : raw.parse = .ok (some run)) (w : World) :
    (x.finalize raw).on w = (do
      x.writeReport run
      let result ← run.complete
      x.save result
      result.finish
      return result : Attempt RunError Run).on w := by
  rw [finalize, Attempt.on_bind, Attempt.on_ofExcept, parse_of_ok hp]

theorem on_finalize_of_report {raw : RawResult} {v : World} (hp : raw.parse = .ok (some run))
    (hr : (x.writeReport run).on w = (.ok (), v)) :
    (x.finalize raw).on w = match (x.save (run.completed v.clock)).on v with
      | (.ok _, u) => (.ok (run.completed v.clock),
          u.noting { events := [(run.completed v.clock).finishEvent] })
      | (.error e, u) => (.error e, u) := by
  rw [on_finalize hp, Attempt.on_bind_of_ok hr, Attempt.on_lift_bind, Run.on_complete,
    Attempt.on_bind]
  cases (x.save (run.completed v.clock)).on v with
  | mk r u => cases r <;> rfl

/-- A finalized run has been completed and kept, and is then announced. -/
theorem finalize_kept {raw : RawResult} (hp : raw.parse = .ok (some run))
    (h : (x.finalize raw).on w = (.ok result, w')) :
    result = run.completed w.clock ∧ ∃ kept : World, kept.toJournal = w.toJournal.add
        { ledger := x.keeping (Secrets.resolve w.environment result) result } ∧
      w' = kept.noting { events := [result.finishEvent] } := by
  rw [on_finalize hp] at h
  obtain ⟨_, v, hr, hv⟩ := Attempt.on_bind_eq_ok.1 h
  obtain ⟨hj, he, hc⟩ := World.eq_of_apartFromFiles ((x.keeps_writeReport run).of_on hr)
  rw [Attempt.on_lift_bind, Run.on_complete] at hv
  obtain ⟨_, kept, hs, hu⟩ := Attempt.on_bind_eq_ok.1 hv
  cases hu
  refine ⟨congrArg (Run.completed · run) hc, kept, ?_, rfl⟩
  rw [journal_save_of_ok hs, hj, he]

theorem finalize_eq_ok {raw : RawResult} (hp : raw.parse = .ok (some run))
    (h : (x.finalize raw).on w = (.ok result, w')) :
    result = run.completed w.clock ∧
      w'.toJournal = w.toJournal.add
        { events := [result.finishEvent]
          ledger := x.keeping (Secrets.resolve w.environment result) result } := by
  obtain ⟨hr, kept, hk, rfl⟩ := finalize_kept hp h
  refine ⟨hr, ?_⟩
  rw [World.toJournal_noting, hk, Journal.add_add]
  simp

theorem finalize_eq_error {raw : RawResult} (hp : raw.parse = .ok (some run))
    (h : (x.finalize raw).on w = (.error e, w')) :
    e.isConfiguration = false ∧ ∃ calls, storedRuns calls = [] ∧
      w'.toJournal = w.toJournal.add { ledger := calls } := by
  rw [on_finalize hp] at h
  obtain hr | ⟨_, v, hr, hv⟩ := Attempt.on_bind_eq_error.1 h
  · obtain ⟨hj, -⟩ := World.eq_of_apartFromFiles ((x.keeps_writeReport run).of_on hr)
    exact ⟨error_writeReport hr, [], rfl, hj.trans (Journal.add_nothing _).symm⟩
  · obtain ⟨hj, -⟩ := World.eq_of_apartFromFiles ((x.keeps_writeReport run).of_on hr)
    rw [Attempt.on_lift_bind, Run.on_complete] at hv
    rw [← hj]
    obtain hs | ⟨_, u, hs, hu⟩ := Attempt.on_bind_eq_error.1 hv
    · exact journal_save_of_error hs
    · rw [Attempt.on_lift_bind] at hu
      cases hu

/-- What finalizing comes to, and the events and calls that go with it. -/
inductive Closes (x : Executor) :
    Except RunError Run → List Event → List DatabaseCall → Prop where
  | failed (e : RunError) (calls : List DatabaseCall) (h : storedRuns calls = []) :
      Closes x (.error e) [] calls
  | silent : Closes x (.ok {}) [] []
  | kept (secrets : Secrets) {run : Run} (h : run.status ≠ none) :
      Closes x (.ok run) [run.finishEvent] (x.keeping secrets run)

theorem closes_finalize (x : Executor) (raw : RawResult) (w : World) : ∃ events calls,
    ((x.finalize raw).on w).2.toJournal = w.toJournal.add { events, ledger := calls } ∧
      x.Closes ((x.finalize raw).on w).1 events calls := by
  cases hp : raw.parse with
  | error text =>
      rw [finalize, Attempt.on_bind, Attempt.on_ofExcept, parse_of_error hp]
      exact ⟨[], [], (Journal.add_nothing _).symm, .failed _ [] rfl⟩
  | ok found =>
      cases found with
      | none =>
          rw [finalize, Attempt.on_bind, Attempt.on_ofExcept, parse_of_ok hp]
          exact ⟨[], [], (Journal.add_nothing _).symm, .silent⟩
      | some run =>
          cases hf : (x.finalize raw).on w with
          | mk r v =>
              cases r with
              | ok result =>
                  obtain ⟨rfl, hj⟩ := finalize_eq_ok hp hf
                  exact ⟨_, _, hj, .kept _ (Run.status_completed_ne_none _ _)⟩
              | error e =>
                  obtain ⟨-, calls, hc, hj⟩ := finalize_eq_error hp hf
                  exact ⟨[], calls, hj, .failed e calls hc⟩

theorem Closes.of_error {events : List Event} {calls : List DatabaseCall}
    (h : x.Closes (.error e) events calls) : events = [] ∧ storedRuns calls = [] := by
  cases h with
  | failed _ _ hs => exact ⟨rfl, hs⟩

theorem Closes.of_empty {events : List Event} {calls : List DatabaseCall}
    (h : x.Closes (.ok {}) events calls) : events = [] ∧ calls = [] := by
  cases h with
  | silent => exact ⟨rfl, rfl⟩
  | kept secrets hs => exact absurd rfl hs

theorem Closes.of_status {events : List Event} {calls : List DatabaseCall}
    (h : x.Closes (.ok run) events calls) (hs : run.status ≠ none) :
    events = [run.finishEvent] ∧ storedRuns calls = x.storing run := by
  cases h with
  | silent => exact absurd rfl hs
  | kept secrets _ => exact ⟨rfl, x.storedRuns_keeping secrets run⟩

theorem on_recordFailure (x : Executor) (task : Run) (e : RunError) (w : World) :
    ∃ calls w', (x.recordFailure task e).on w = (task.failed w.clock e.message, w') ∧
      w'.toJournal = w.toJournal.add
        { events := [(task.failed w.clock e.message).finishEvent], ledger := calls } ∧
      (calls = x.keeping (Secrets.resolve w.environment (task.failed w.clock e.message))
          (task.failed w.clock e.message) ∨
        storedRuns calls = [] ∧ ((x.save (task.failed w.clock e.message)).on w).1 ≠ .ok ()) := by
  unfold recordFailure
  rw [Action.on_bind, Run.on_fail, Action.on_bind, Attempt.on_run, Action.on_bind, Run.on_finish]
  cases h : (x.save (task.failed w.clock e.message)).on w with
  | mk r v =>
      cases r with
      | ok _ =>
          refine ⟨_, _, rfl, ?_, .inl rfl⟩
          simp [journal_save_of_ok h, Journal.add_add]
      | error e' =>
          obtain ⟨-, calls, hn, hj⟩ := journal_save_of_error h
          refine ⟨calls, _, rfl, ?_, .inr ⟨hn, by simp⟩⟩
          simp [hj, Journal.add_add]

end Executor

end Experiment
