import Experiment.Proofs.Commitment
import Experiment.Proofs.Course

/-!
# What an error of configuration leaves behind

A run that is found wrong when it is prepared, or a sweep when it is planned, leaves the world as it
was, but for a uid that may have been given out. What is wrong is not always found there: a runtime
may miss what it needs once it has been handed its task, and a task may be refused after its sweep
has been announced. A reliable runtime, which finds what it misses when it validates a run, is never
handed a task that it misses something for.
-/

namespace Experiment

/-- All of a world but how many uids have been given out. -/
def World.apartFromUids (w : World) : World :=
  { w with issued := 0 }

namespace Executor
variable {x : Executor} {run : Run} {w w' : World} {e : RunError}

/-- The runtime misses something for a task that it has been handed. -/
def MissesLate (x : Executor) (run : Run) (w : World) (e : RunError) (w' : World) : Prop :=
  ∃ task u cause, (x.prepare run).on w = (.ok task, u) ∧
    (x.runtime.execute task).on (handed task u) = (.error cause, w') ∧
    cause.isMissing = true ∧ e = .ofRuntime cause

theorem keeps_prepare (x : Executor) (run : Run) : (x.prepare run).Keeps World.apartFromUids := by
  intro w
  cases h : (x.prepare run).on w with
  | mk r v =>
      cases r with
      | ok task =>
          obtain ⟨-, -, issued, rfl⟩ := prepare_eq_ok h
          rfl
      | error e =>
          obtain ⟨-, rfl⟩ := prepare_eq_error h
          rfl

/-- What is wrong with a run is found when it is prepared, or missed when it is executed. -/
theorem configuration_of_execute (h : (x.execute run).on w = (.error e, w'))
    (he : e.isConfiguration = true) :
    ((x.prepare run).on w = (.error e, w) ∧ w' = w) ∨ x.MissesLate run w e w' := by
  obtain hp | ⟨task, u, answer, v, hp, ha, ⟨cause, rfl, rfl, rfl⟩ | ⟨-, hn, -⟩⟩ :=
    execute_eq_error h
  · exact .inl hp
  · rw [RunError.isConfiguration_ofRuntime] at he
    exact .inr ⟨task, u, cause, hp, ha, he, rfl⟩
  · rw [hn] at he
    cases he

theorem on_execute_of_missesLate (h : x.MissesLate run w e w') :
    (x.execute run).on w = (.error e, w') ∧ e.isConfiguration = true := by
  obtain ⟨task, u, cause, hp, ha, hm, rfl⟩ := h
  refine ⟨on_execute_of_crashed hp ha, ?_⟩
  rw [RunError.isConfiguration_ofRuntime, hm]

theorem MissesLate.journal (hc : x.runtime.Confined) (h : x.MissesLate run w e w') :
    ∃ (task : Run) (lines : List String) (calls : List DatabaseCall),
      x.Prepares run task ∧ w'.toJournal = w.toJournal.add
      { events := task.startEvent :: lines.map (.logLine task.uid)
        handed := [task]
        ledger := calls } := by
  obtain ⟨task, u, cause, hp, ha, -, -⟩ := h
  obtain ⟨lines, calls, hj, -⟩ := hc task (handed task u)
  rw [ha] at hj
  refine ⟨task, lines, calls, prepares_of_prepare hp, ?_⟩
  rw [hj, handed, World.toJournal_noting, journal_of_prepare hp, Journal.add_add]
  rfl

theorem not_missesLate (hb : x.runtime.Builtin) (hr : x.runtime.Reliable) (run : Run) (w : World)
    (e : RunError) (w' : World) : ¬ x.MissesLate run w e w' := by
  rintro ⟨task, u, cause, hp, ha, hm, -⟩
  have hs : (x.filled run).spec = task.spec := (prepares_of_prepare hp).spec.symm
  have hv : x.runtime.validate task = .ok () := by
    rw [← hb.validate_congr (congrArg RunSpec.runtime hs), validate_filled hp]
  have hn := hr task (handed task u) cause hv (congrArg Prod.fst ha)
  rw [hm] at hn
  cases hn

theorem eq_of_configuration (hb : x.runtime.Builtin) (hr : x.runtime.Reliable)
    (h : (x.execute run).on w = (.error e, w')) (he : e.isConfiguration = true) : w' = w := by
  obtain ⟨-, hw⟩ | hm := configuration_of_execute h he
  · exact hw
  · exact absurd hm (not_missesLate hb hr run w e w')

end Executor

namespace Sweep
variable {x : Executor} {definition : Run} {hyperparams : HyperParams} {p : Plan}
  {w u v w' : World} {e : RunError}

theorem keeps_plan (x : Executor) (definition : Run) (hyperparams : HyperParams) :
    (plan x definition hyperparams).Keeps World.apartFromUids := by
  refine .bind (x.keeps_prepare definition) fun prepared => ?_
  refine .bind (.ofExcept (parseSelector prepared.spec.options.selector)) fun selector => ?_
  exact .bind (.ofExcept (Grid.expand hyperparams prepared.spec.options.strategy)) fun _ => .pure _

/-- Once a sweep is under way, it is found wrong only at a child: its parent is merely finalized. -/
theorem configuration_of_conduct (h : (conduct x p).on u = (.error e, w'))
    (he : e.isConfiguration = true) :
    ∃ task v, Turn x p.parent.uid p.tasks (opened p u) task v ∧
      (x.execute task).on v = (.error e, w') := by
  rw [on_conduct] at h
  cases hc : (runChildren x p.parent.uid p.tasks).on (opened p u) with
  | mk r v =>
      rw [hc] at h
      cases r with
      | error e' =>
          cases h
          obtain ⟨-, task, v, ht, hx⟩ := runChildren_eq_error hc
          exact ⟨task, v, ht, hx⟩
      | ok records =>
          have hf := conclude_eq_error h
          obtain ⟨hn, -⟩ := Executor.finalize_eq_error (parse_closing p u.clock records) hf
          rw [hn] at he
          cases he

/-- A sweep is found wrong when it is planned, or at a child in its turn. -/
theorem configuration_of_run (h : (run x definition hyperparams).on w = (.error e, w'))
    (he : e.isConfiguration = true) :
    (hyperparams.isEmpty = true ∧ (x.execute definition).on w = (.error e, w')) ∨
    (plan x definition hyperparams).on w = (.error e, w') ∨
    ∃ p u, (plan x definition hyperparams).on w = (.ok p, u) ∧
      ∃ task v, Turn x p.parent.uid p.tasks (opened p u) task v ∧
        (x.execute task).on v = (.error e, w') := by
  cases hn : hyperparams.isEmpty with
  | true =>
      unfold run at h
      rw [hn] at h
      exact .inl ⟨rfl, h⟩
  | false =>
      cases hp : (plan x definition hyperparams).on w with
      | mk r u =>
          cases r with
          | error e' =>
              rw [on_run_of_error hn hp] at h
              cases h
              exact .inr (.inl rfl)
          | ok p =>
              rw [on_run hn hp] at h
              exact .inr (.inr ⟨p, u, rfl, configuration_of_conduct h he⟩)

theorem journal_of_turn (hc : x.runtime.Confined) {task : Run}
    (hp : (plan x definition hyperparams).on w = (.ok p, u))
    (ht : Turn x p.parent.uid p.tasks (opened p u) task v)
    (hx : (x.execute task).on v = (.error e, w')) : ∃ entries, w'.toJournal =
      w.toJournal.add ({ events := [.sweepStarted p.parent.uid p.grid.size] } ++ entries) := by
  obtain ⟨before, hj⟩ := ht.journal hc.storesNone
  obtain ⟨entries, _, _, hj', -⟩ := Executor.journal_execute hc task v
  rw [hx, hj, opened, World.toJournal_noting, journal_of_plan hp, Journal.add_add,
    Journal.add_add] at hj'
  exact ⟨before ++ entries, hj'⟩

/-- Where the kind of the runtime fits, no child of a sweep is found wrong. -/
theorem not_configuration_of_turn (hb : x.runtime.Builtin) (hr : x.runtime.Reliable) {task : Run}
    (hp : (plan x definition hyperparams).on w = (.ok p, u))
    (hk : Text.trim definition.spec.runtime.kind ≠ "" ∨ x.KindFits) (ht : task ∈ p.tasks)
    (hx : (x.execute task).on v = (.error e, w')) : e.isConfiguration = false := by
  have hready := prepare_of_mem_tasks hb hp hk ht v
  obtain ⟨_, ⟨e', hf, he⟩ | ⟨-, he⟩ | ⟨now, task', result, -, he⟩⟩ := x.execute_cases task v
  · rw [hx] at he
    cases he
    exact Executor.failure_of_prepared hr hready hf
  · rw [hx] at he
    cases he
  · rw [hx] at he
    cases he

end Sweep

/-- An error of configuration comes before anything is done, unless a runtime misses something late
or a child of a sweep is found wrong. -/
theorem configuration_errors (x : Executor) :
    (∀ run w e w', (x.execute run).on w = (.error e, w') → e.isConfiguration = true →
      ((x.prepare run).on w = (.error e, w) ∧ w' = w) ∨ x.MissesLate run w e w') ∧
    (∀ run w e w', x.MissesLate run w e w' →
      (x.execute run).on w = (.error e, w') ∧ e.isConfiguration = true ∧
      (x.runtime.Confined → ∃ (task : Run) (lines : List String) (calls : List DatabaseCall),
        x.Prepares run task ∧ w'.toJournal = w.toJournal.add
          { events := task.startEvent :: lines.map (.logLine task.uid)
            handed := [task]
            ledger := calls })) ∧
    (∀ definition hyperparams w e w',
      (Sweep.run x definition hyperparams).on w = (.error e, w') → e.isConfiguration = true →
      (hyperparams.isEmpty = true ∧ (x.execute definition).on w = (.error e, w')) ∨
      ((Sweep.plan x definition hyperparams).on w = (.error e, w') ∧
        w'.apartFromUids = w.apartFromUids) ∨
      ∃ p u, (Sweep.plan x definition hyperparams).on w = (.ok p, u) ∧
        ∃ task v, Sweep.Turn x p.parent.uid p.tasks (Sweep.opened p u) task v ∧
          (x.execute task).on v = (.error e, w') ∧
          (x.runtime.Confined → ∃ entries, w'.toJournal = w.toJournal.add
            ({ events := [.sweepStarted p.parent.uid p.grid.size] } ++ entries))) ∧
    (x.runtime.Builtin → x.runtime.Reliable →
      (∀ run w e w', (x.execute run).on w = (.error e, w') → e.isConfiguration = true → w' = w) ∧
      ∀ definition hyperparams w e w',
        (Sweep.run x definition hyperparams).on w = (.error e, w') → e.isConfiguration = true →
        (Text.trim definition.spec.runtime.kind ≠ "" ∨ x.KindFits) →
        w'.apartFromUids = w.apartFromUids) := by
  refine ⟨fun run w e w' h he => Executor.configuration_of_execute h he,
    fun run w e w' h => ?_, fun definition hyperparams w e w' h he => ?_,
    fun hb hr => ⟨fun run w e w' h he => Executor.eq_of_configuration hb hr h he,
      fun definition hyperparams w e w' h he hk => ?_⟩⟩
  · obtain ⟨hx, he⟩ := Executor.on_execute_of_missesLate h
    exact ⟨hx, he, fun hc => h.journal hc⟩
  · obtain hx | hp | ⟨p, u, hp, task, v, ht, hx⟩ := Sweep.configuration_of_run h he
    · exact .inl hx
    · exact .inr (.inl ⟨hp, (Sweep.keeps_plan x definition hyperparams).of_on hp⟩)
    · exact .inr (.inr ⟨p, u, hp, task, v, ht, hx, fun hc => Sweep.journal_of_turn hc hp ht hx⟩)
  · obtain ⟨-, hx⟩ | hp | ⟨p, u, hp, task, v, ht, hx⟩ := Sweep.configuration_of_run h he
    · rw [Executor.eq_of_configuration hb hr hx he]
    · exact (Sweep.keeps_plan x definition hyperparams).of_on hp
    · rw [Sweep.not_configuration_of_turn hb hr hp hk ht.mem hx] at he
      cases he

theorem configuration_errors_no_handler : ∃ e w',
    (Sweep.run { runtime := .handler none {} } {} [("p", [.null])]).on {} = (.error e, w') ∧
    e.isConfiguration = true ∧ w'.apartFromUids = World.apartFromUids {} :=
  ⟨_, _, rfl, rfl, ((configuration_errors { runtime := .handler none {} }).2.2.2
    (.handler none {} (fun _ h => by cases h)) (Runtime.reliable_handler none {})).2
      {} [("p", [.null])] {} _ _ rfl rfl (.inr (.inr rfl))⟩

/-- A runtime that finds out only when it is asked that it has no handler. -/
def Runtime.negligent : Runtime :=
  .scripted (fun _ => .error (.missingHandler "mock")) "mock"

theorem misses_handler_late : ∃ e w',
    (Executor.execute { runtime := .negligent } { metadata := { uid := some "u" } }).on {} =
      (.error e, w') ∧
    e.isConfiguration = true ∧ w'.events = [.runStarted "u" "" 0] ∧ w'.handed.length = 1 :=
  ⟨_, _, rfl, rfl, rfl, rfl⟩

end Experiment
