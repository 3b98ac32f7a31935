import Experiment.Proofs.Fate

/-!
# Committing and announcing

A run is announced as finished exactly when its record has been kept, and after that. A run that
fails leaves neither a record nor an announcement, and of one whose runtime stayed silent nothing is
done once its runtime has answered. What a runtime does while it is asked is its own affair; a
confined one neither stores nor announces runs, so that the counts hold of the whole call.
-/

namespace Experiment

def Event.isFinish : Event → Bool
  | .runFinished _ _ _ => true
  | _ => false

def finishes (events : List Event) : List Event :=
  events.filter Event.isFinish

theorem finishes_lines (uid : String) (lines : List String) :
    finishes (lines.map (.logLine uid)) = [] := by
  refine List.filter_eq_nil_iff.2 fun e he => ?_
  obtain ⟨line, -, rfl⟩ := List.mem_map.1 he
  simp [Event.isFinish]

namespace Executor
variable {x : Executor} {run task r : Run} {w u w' : World} {e : RunError} {events : List Event}
  {calls : List DatabaseCall}

theorem Closes.finishes_eq {outcome : Except RunError Run} (h : x.Closes outcome events calls) :
    finishes events = events := by
  cases h <;> rfl

theorem Closes.of_not_empty (h : x.Closes (.ok r) events calls) (hr : r.isEmpty = false) :
    events = [r.finishEvent] ∧ storedRuns calls = x.storing r := by
  cases h with
  | silent => cases hr
  | kept secrets _ => exact ⟨rfl, x.storedRuns_keeping secrets r⟩

theorem execute_failed (h : (x.execute run).on w = (.error e, w')) :
    w' = w ∨ ∃ task u calls, (x.prepare run).on w = (.ok task, u) ∧ storedRuns calls = [] ∧
      w'.toJournal = (x.answered task u).toJournal.add { ledger := calls } := by
  obtain ⟨-, rfl⟩ | ⟨task, u, answer, v, hp, ha, ⟨cause, -, -, rfl⟩ | ⟨-, -, calls, hc, hj⟩⟩ :=
    execute_eq_error h
  · exact .inl rfl
  · refine .inr ⟨task, u, [], hp, rfl, ?_⟩
    rw [answered, ha, Journal.add_nothing]
  · refine .inr ⟨task, u, calls, hp, hc, ?_⟩
    rw [answered, ha, hj]

theorem execute_kept (h : (x.execute run).on w = (.ok r, w')) (hr : r.isEmpty = false) :
    ∃ task u, (x.prepare run).on w = (.ok task, u) ∧ ∃ kept : World,
      kept.toJournal = (x.answered task u).toJournal.add
        { ledger := x.keeping (Secrets.resolve (x.answered task u).environment r) r } ∧
      w' = kept.noting { events := [r.finishEvent] } := by
  obtain ⟨task, u, raw, v, hp, ha, ⟨-, rfl⟩ | ⟨result, _, _, hparse, -⟩⟩ := execute_eq_ok h
  · cases hr
  · obtain ⟨hx, hn⟩ := on_execute_of_result hp ha hparse
    rw [hx] at h
    obtain ⟨-, kept, hk, hw⟩ := finalize_kept hn h
    refine ⟨task, u, hp, kept, ?_, hw⟩
    rw [answered, ha, hk]

theorem execute_silent (h : (x.execute run).on w = (.ok r, w')) (hr : r.isEmpty = true) :
    ∃ task u raw, (x.prepare run).on w = (.ok task, u) ∧
      (x.runtime.execute task).on (handed task u) = (.ok raw, w') ∧ raw.parse = .ok none := by
  obtain ⟨task, u, raw, v, hp, ha, ⟨hparse, -⟩ | ⟨result, v₁, _, -, -, rfl, -⟩⟩ := execute_eq_ok h
  · rw [on_execute_of_answer hp ha, on_settle, hparse] at h
    cases h
    exact ⟨task, u, raw, hp, ha, hparse⟩
  · have hs := Run.status_completed_ne_none v₁.clock (Run.carryIdentity task result)
    rw [Run.isEmpty_eq_false_of_status hs] at hr
    cases hr

theorem journal_execute (hc : x.runtime.Confined) (run : Run) (w : World) :
    ∃ entries events calls, ((x.execute run).on w).2.toJournal = w.toJournal.add entries ∧
      x.Closes ((x.execute run).on w).1 events calls ∧ finishes entries.events = events ∧
      storedRuns entries.ledger = storedRuns calls := by
  cases hp : (x.prepare run).on w with
  | mk prepared u =>
      cases prepared with
      | error e =>
          have he : (x.execute run).on w = (.error e, u) := Attempt.on_bind_of_error hp
          obtain ⟨-, rfl⟩ := prepare_eq_error hp
          rw [he]
          exact ⟨{}, [], [], (Journal.add_nothing _).symm, .failed e [] rfl, rfl, rfl⟩
      | ok task =>
          have he : (x.execute run).on w = (x.perform task).on u := Attempt.on_bind_of_ok hp
          obtain ⟨lines, artifacts, ha⟩ := utters_of_confined hc task u
          obtain ⟨events, calls, hj, hx⟩ := x.journal_perform ha.journal
          simp only [journal_of_prepare hp, Entries.append_mk, List.singleton_append,
            List.nil_append] at hj
          rw [he]
          refine ⟨_, events, calls, hj, hx, ?_, ?_⟩
          · have hl := finishes_lines task.uid lines
            have hs : finishes (task.startEvent :: (lines.map (.logLine task.uid) ++ events)) =
                finishes (lines.map (.logLine task.uid)) ++ finishes events :=
              List.filter_append _ _
            rw [hs, hl, hx.finishes_eq, List.nil_append]
          · rw [storedRuns_append, storedRuns_of_isArtifact ha.isArtifact, List.nil_append]

/-- A run that has a result is stored, and then announced; no other run is either. -/
theorem commits_then_announces (x : Executor) (run : Run) (w : World) :
    (∀ task u, (x.prepare run).on w = (.ok task, u) → ∃ issued, u = { w with issued }) ∧
    (∀ e w', (x.execute run).on w = (.error e, w') →
      w' = w ∨ ∃ task u calls, (x.prepare run).on w = (.ok task, u) ∧ storedRuns calls = [] ∧
        w'.toJournal = (x.answered task u).toJournal.add { ledger := calls }) ∧
    (∀ r w', (x.execute run).on w = (.ok r, w') → r.isEmpty = false →
      ∃ task u, (x.prepare run).on w = (.ok task, u) ∧ ∃ kept : World,
        kept.toJournal = (x.answered task u).toJournal.add
          { ledger := match x.database with
              | none => []
              | some _ => [.connect (Secrets.resolve (x.answered task u).environment r),
                  .run r.uid r.metadata.project true r] } ∧
        w' = kept.noting { events := [.runFinished r.uid r.metadata.iteration r.state?] }) ∧
    (∀ r w', (x.execute run).on w = (.ok r, w') → r.isEmpty = true →
      ∃ task u raw, (x.prepare run).on w = (.ok task, u) ∧
        (x.runtime.execute task).on (handed task u) = (.ok raw, w') ∧ raw.parse = .ok none) ∧
    (x.runtime.Confined → ∃ entries,
      ((x.execute run).on w).2.toJournal = w.toJournal.add entries ∧
      (∀ e, ((x.execute run).on w).1 = .error e →
        storedRuns entries.ledger = [] ∧ finishes entries.events = []) ∧
      (∀ r, ((x.execute run).on w).1 = .ok r → r.isEmpty = false →
        (x.database.isSome → storedRuns entries.ledger =
          [.run r.uid r.metadata.project true r]) ∧
        finishes entries.events = [.runFinished r.uid r.metadata.iteration r.state?]) ∧
      (∀ r, ((x.execute run).on w).1 = .ok r → r.isEmpty = true →
        storedRuns entries.ledger = [] ∧ finishes entries.events = [])) := by
  refine ⟨fun task u hp => (prepare_eq_ok hp).2.2, fun e w' h => execute_failed h,
    fun r w' h hr => execute_kept h hr, fun r w' h hr => execute_silent h hr, fun hc => ?_⟩
  obtain ⟨entries, events, calls, hj, hx, he, hl⟩ := journal_execute hc run w
  refine ⟨entries, hj, fun e ho => ?_, fun r ho hr => ?_, fun r ho hr => ?_⟩
  · rw [ho] at hx
    rw [he, hl]
    exact hx.of_error.symm
  · rw [ho] at hx
    obtain ⟨hf, hs⟩ := hx.of_not_empty hr
    refine ⟨fun hd => ?_, he.trans hf⟩
    obtain ⟨db, hdb⟩ := Option.isSome_iff_exists.1 hd
    rw [hl, hs, storing, hdb]
    rfl
  · rw [ho, of_decide_eq_true hr] at hx
    obtain ⟨hf, rfl⟩ := hx.of_empty
    exact ⟨hl, he.trans hf⟩

theorem commits_then_announces_echo : ∃ r w',
    (execute { runtime := .echo "mock", database := some (.ledger {}) }
      { metadata := { uid := some "u", project := "demo" } }).on {} = (.ok r, w') ∧
    storedRuns w'.ledger = [.run "u" "demo" true r] ∧
    finishes w'.events = [.runFinished "u" 0 (some .completed)] := by
  obtain ⟨entries, hj, -, hk, -⟩ := (commits_then_announces
    { runtime := .echo "mock", database := some (.ledger {}) }
    { metadata := { uid := some "u", project := "demo" } } {}).2.2.2.2
      (Runtime.confined_scripted _ _)
  obtain ⟨hs, hf⟩ := hk _ rfl rfl
  refine ⟨_, _, rfl, ?_, ?_⟩
  · exact (congrArg (storedRuns ·.ledger) hj).trans (hs rfl)
  · exact (congrArg (finishes ·.events) hj).trans hf

end Executor

end Experiment
