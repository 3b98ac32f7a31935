import Experiment.Proofs.Children
import Experiment.Proofs.IterationTable
import Mathlib.Data.List.Basic

/-!
# The course of a sweep

A sweep is planned, its children are run one after the other, and its parent is finalized with a
table of them. Preparing the parent has prepared every task, if the kind of the runtime fits; so no
child stops the sweep, and it fails only where its parent does.
-/

namespace Experiment

namespace Sweep
variable {x : Executor} {definition parent task : Run} {hyperparams : HyperParams} {p : Plan}
  {records : List Run} {start : Timestamp} {w v w' : World} {e : RunError}

namespace Plan

/-- The task of a point: the parent with the values of that point. -/
def taskAt (p : Plan) (i : Nat) : Run :=
  { p.parent with
    metadata := { p.parent.metadata with iteration := i + 1 }
    spec := { p.parent.spec with
      parameters := OrderedMap.extend p.parent.spec.parameters
        (OrderedMap.mapValues (fun values => values.getD i .null) p.grid.columns) } }

theorem tasks_eq (h : p.grid.size < iterationBound) :
    p.tasks = (List.range p.grid.size).map p.taskAt := by
  rw [tasks, TaskCursor.rest, List.range_eq_range',
    show p.cursor.position = 0 from rfl, show p.cursor.remaining = p.grid.size from rfl,
    List.filterMap_eq_map_iff_forall_eq_some]
  intro i hi
  have hlt : i < p.grid.size := by simpa using hi
  have hmin : min (i + 1) maxIteration = i + 1 := by
    rw [maxIteration]
    omega
  simp [cursor, TaskCursor.task?, Grid.point?, hlt, TaskCursor.taskOf, hmin, taskAt]

theorem pairwise_tasks (p : Plan) :
    p.tasks.Pairwise fun a b => a.metadata.iteration ≤ b.metadata.iteration := by
  have hstep : ∀ i j, i < j → ∀ a, p.cursor.task? i = some a → ∀ b, p.cursor.task? j = some b →
      a.metadata.iteration ≤ b.metadata.iteration := by
    intro i j hij a ha b hb
    obtain ⟨_, -, rfl⟩ := Option.map_eq_some_iff.1 ha
    obtain ⟨_, -, rfl⟩ := Option.map_eq_some_iff.1 hb
    dsimp only [TaskCursor.taskOf]
    omega
  exact List.pairwise_filterMap.2 ((List.pairwise_lt_range' 1).imp
    fun {i j} hij a ha b hb => hstep i j hij a ha b hb)

/-- Tasks share everything with their parent but iteration and parameters. -/
theorem eq_of_mem_tasks (h : task ∈ p.tasks) :
    task.spec.runtime = p.parent.spec.runtime ∧ task.status = p.parent.status ∧
      task.uid = p.parent.uid ∧ task.metadata.project = p.parent.metadata.project ∧
      task.metadata.name = p.parent.metadata.name := by
  obtain ⟨i, -, hi⟩ := List.mem_filterMap.1 h
  obtain ⟨point, -, rfl⟩ := Option.map_eq_some_iff.1 hi
  exact ⟨rfl, rfl, rfl, rfl, rfl⟩

theorem secretSources_of_mem_tasks (h : task ∈ p.tasks) :
    task.spec.secretSources = p.parent.spec.secretSources := by
  obtain ⟨i, -, hi⟩ := List.mem_filterMap.1 h
  obtain ⟨point, -, rfl⟩ := Option.map_eq_some_iff.1 hi
  rfl

end Plan

theorem plan_eq_ok (h : (plan x definition hyperparams).on w = (.ok p, v)) :
    ∃ prepared, (x.prepare definition).on w = (.ok prepared, v) ∧
      parseSelector prepared.spec.options.selector = .ok p.selector ∧
      Grid.expand hyperparams prepared.spec.options.strategy = .ok p.grid ∧
      p.parent = { prepared with spec := { prepared.spec with hyperparams } } := by
  obtain ⟨prepared, u, hp, h⟩ := Attempt.on_bind_eq_ok.1 h
  obtain ⟨selector, u', hs, h⟩ := Attempt.on_bind_eq_ok.1 h
  obtain ⟨grid, u'', hg, h⟩ := Attempt.on_bind_eq_ok.1 h
  cases hs' : parseSelector prepared.spec.options.selector with
  | error e => simp [hs'] at hs
  | ok s =>
      cases hg' : Grid.expand hyperparams prepared.spec.options.strategy with
      | error e => simp [hg'] at hg
      | ok g =>
          simp only [hs', hg', Attempt.on_ofExcept, Attempt.on_pure, Prod.mk.injEq,
            Except.ok.injEq] at hs hg h
          obtain ⟨rfl, rfl⟩ := hs
          obtain ⟨rfl, rfl⟩ := hg
          obtain ⟨rfl, rfl⟩ := h
          exact ⟨prepared, hp, hs', hg', rfl⟩

/-- What a plan makes of a definition. -/
structure Planned (x : Executor) (definition : Run) (hyperparams : HyperParams) (p : Plan) : Prop where
  metadata : p.parent.metadata = { definition.metadata with uid := p.parent.metadata.uid }
  uid : p.parent.uid ≠ ""
  metadata_of_uid : definition.uid ≠ "" → p.parent.metadata = definition.metadata
  spec : p.parent.spec = { definition.spec with
    hyperparams
    runtime := { definition.spec.runtime with kind := x.kindFor definition } }
  status : p.parent.status = definition.status
  grid : Grid.expand hyperparams definition.spec.options.strategy = .ok p.grid

theorem planned_of_plan (hp : (plan x definition hyperparams).on w = (.ok p, v)) :
    Planned x definition hyperparams p := by
  obtain ⟨prepared, hd, -, hg, hparent⟩ := plan_eq_ok hp
  have hpre := Executor.prepares_of_prepare hd
  have hm : p.parent.metadata = prepared.metadata := by rw [hparent]
  have hu : p.parent.uid = prepared.uid := by rw [Run.uid, hm, Run.uid]
  have hspec : prepared.spec = (x.filled definition).spec := hpre.spec
  constructor
  · rw [hm]
    exact hpre.metadata
  · rw [hu]
    exact hpre.uid
  · rw [hm]
    exact hpre.metadata_of_uid
  · rw [hparent]
    dsimp only
    rw [hspec, Executor.filled]
  · rw [hparent]
    exact hpre.status
  · rw [hspec, Executor.filled] at hg
    exact hg

theorem journal_of_plan (hp : (plan x definition hyperparams).on w = (.ok p, v)) :
    v.toJournal = w.toJournal := by
  obtain ⟨prepared, hd, -⟩ := plan_eq_ok hp
  exact Executor.journal_of_prepare hd

theorem Planned.uid_of_mem (hp : Planned x definition hyperparams p) (ht : task ∈ p.tasks) :
    task.uid ≠ "" := by
  rw [(Plan.eq_of_mem_tasks ht).2.2.1]
  exact hp.uid

/-- Preparing the parent prepares every task, if the kind of the runtime fits. -/
theorem prepare_of_mem_tasks (hr : x.runtime.Builtin)
    (hp : (plan x definition hyperparams).on w = (.ok p, v))
    (hk : Text.trim definition.spec.runtime.kind ≠ "" ∨ x.KindFits) (ht : task ∈ p.tasks)
    (u : World) : (x.prepare task).on u = (.ok task, u) := by
  obtain ⟨prepared, hd, -, -, hparent⟩ := plan_eq_ok hp
  have hruntime : task.spec.runtime = prepared.spec.runtime := by
    rw [(Plan.eq_of_mem_tasks ht).1, hparent]
  have hvalid : x.runtime.validate task = .ok () := by
    rw [← Executor.validate_filled hd]
    exact hr.validate_congr (by rw [hruntime, (Executor.prepares_of_prepare hd).spec])
  exact Executor.on_prepare_of_prepared
    (Executor.check_eq_ok.2 ⟨Executor.withKind_of_prepare hd hk hruntime, hvalid⟩)
    ((planned_of_plan hp).uid_of_mem ht) u

theorem execute_of_mem_tasks_unfit (hp : (plan x definition hyperparams).on w = (.ok p, v))
    (hb : Text.trim definition.spec.runtime.kind = "") (hk : ¬ x.KindFits) (ht : task ∈ p.tasks)
    (u : World) : (x.execute task).on u = (.error (.configuration
      (.runtimeMismatch definition.metadata.name (Text.trim x.runtime.kind) x.runtime.kind)), u) := by
  obtain ⟨prepared, hd, -, -, hparent⟩ := plan_eq_ok hp
  have hruntime : task.spec.runtime = prepared.spec.runtime := by
    rw [(Plan.eq_of_mem_tasks ht).1, hparent]
  have hn : task.metadata.name = definition.metadata.name := by
    rw [(Plan.eq_of_mem_tasks ht).2.2.2.2, (planned_of_plan hp).metadata]
  have hw := Executor.withKind_of_prepare_unfit hd hb hk hruntime
  rw [hn] at hw
  exact Attempt.on_bind_of_error (Executor.on_prepare_of_error (by rw [Executor.check, hw]) u)

/-- The world in which the first child starts. -/
def opened (p : Plan) (w : World) : World :=
  w.noting { events := [.sweepStarted p.parent.uid p.grid.size] }

/-- The world in which a task has its turn. -/
def turn (x : Executor) (p : Plan) (w : World) (i : Nat) : World :=
  ((runChildren x p.parent.uid (p.tasks.take i)).on (opened p w)).2

theorem on_run (hn : hyperparams.isEmpty = false)
    (hp : (plan x definition hyperparams).on w = (.ok p, v)) :
    (run x definition hyperparams).on w = (conduct x p).on v := by
  unfold run
  rw [hn]
  exact Attempt.on_bind_of_ok hp

theorem on_run_of_error (hn : hyperparams.isEmpty = false)
    (hp : (plan x definition hyperparams).on w = (.error e, v)) :
    (run x definition hyperparams).on w = (.error e, v) := by
  unfold run
  rw [hn]
  exact Attempt.on_bind_of_error hp

theorem on_conduct (x : Executor) (p : Plan) (w : World) :
    (conduct x p).on w = match (runChildren x p.parent.uid p.tasks).on (opened p w) with
      | (.ok records, v) => (conclude x p w.clock records).on v
      | (.error e, v) => (.error e, v) := by
  unfold conduct
  rw [Attempt.on_lift_bind, Attempt.on_lift_bind, Attempt.on_bind]
  simp only [World.on_now, World.on_emit, opened]
  cases (runChildren x p.parent.uid p.tasks).on
      (w.noting { events := [.sweepStarted p.parent.uid p.grid.size] }) with
  | mk r v => cases r <;> rfl

theorem run_eq_ok (hn : hyperparams.isEmpty = false)
    (h : (run x definition hyperparams).on w = (.ok parent, w')) :
    ∃ p u records v, (plan x definition hyperparams).on w = (.ok p, u) ∧
      (runChildren x p.parent.uid p.tasks).on (opened p u) = (.ok records, v) ∧
      (conclude x p u.clock records).on v = (.ok parent, w') := by
  unfold run at h
  rw [hn] at h
  obtain ⟨p, u, hp, h⟩ := Attempt.on_bind_eq_ok.1 h
  rw [on_conduct] at h
  cases hc : (runChildren x p.parent.uid p.tasks).on (opened p u) with
  | mk r v =>
      rw [hc] at h
      cases r with
      | error e => cases h
      | ok records => exact ⟨p, u, records, v, hp, hc, h⟩

theorem byIteration_children (hk : ∀ c ∈ children x p.parent.uid p.tasks w, c.KeepsIteration)
    (hc : (runChildren x p.parent.uid p.tasks).on w = (.ok records, v)) :
    IterationTable.byIteration records = records := by
  obtain ⟨hrec, htask⟩ := runChildren_eq_ok hc
  have hp := p.pairwise_tasks
  rw [← htask, List.pairwise_map] at hp
  rw [← hrec]
  refine IterationTable.byIteration_eq_self (List.pairwise_map.2 (hp.imp_of_mem ?_))
  intro a b ha hb hab
  rw [iteration_of_mem_children ha (hk a ha), iteration_of_mem_children hb (hk b hb)]
  exact hab

/-- The rows of a sweep show the states of the records of its children. -/
theorem cell_of_record (hk : ∀ c ∈ children x p.parent.uid p.tasks w, c.KeepsIteration)
    (hc : (runChildren x p.parent.uid p.tasks).on w = (.ok records, v)) {i : Nat} {c : Child}
    (hi : (children x p.parent.uid p.tasks w)[i]? = some c) :
    (IterationTable.ofRuns records).cell? i "state" = some (IterationTable.stateCell c.record) := by
  rw [IterationTable.cell?_state_ofRuns, byIteration_children hk hc, ← (runChildren_eq_ok hc).1,
    List.getElem?_map, hi]
  rfl

section Conclusion

theorem parentStatus_state (start : Timestamp) (selector : Option Selector)
    (maxErrors : Option Nat) (records : List Run) :
    (parentStatus start selector maxErrors records).state =
      if hasFailed (failures records) records.length maxErrors then some .error else none := by
  unfold parentStatus
  cases selector.bind fun s => s.select records <;> dsimp only <;> split <;> rfl

theorem parentStatus_iterations (start : Timestamp) (selector : Option Selector)
    (maxErrors : Option Nat) (records : List Run) :
    (parentStatus start selector maxErrors records).iterations =
      some (IterationTable.ofRuns records) := by
  unfold parentStatus
  cases selector.bind fun s => s.select records <;> dsimp only <;> split <;> rfl

/-- The parent as it is finalized. -/
def closing (p : Plan) (start : Timestamp) (records : List Run) : Run :=
  { p.parent with
    status := some (parentStatus start p.selector p.parent.spec.options.maxErrors records) }

theorem state?_closing (p : Plan) (start : Timestamp) (records : List Run) :
    (closing p start records).state? = if hasFailed (failures records) records.length
      p.parent.spec.options.maxErrors then some .error else none :=
  parentStatus_state _ _ _ _

theorem conclude_eq_ok (h : (conclude x p start records).on v = (.ok parent, w')) :
    ∃ u, (x.finalize (.structured (closing p start records))).on v = (.ok parent, u) ∧
      w' = u.noting { events := [.sweepFinished parent.uid parent.state?
        (parent.status.bind RunStatus.bestIteration)] } := by
  obtain ⟨finished, u, hf, h⟩ := Attempt.on_bind_eq_ok.1 h
  cases h
  exact ⟨u, hf, rfl⟩

theorem conclude_eq_error (h : (conclude x p start records).on v = (.error e, w')) :
    (x.finalize (.structured (closing p start records))).on v = (.error e, w') := by
  obtain h | ⟨finished, u, -, h⟩ := Attempt.on_bind_eq_error.1 h
  · exact h
  · cases h

theorem parse_closing (p : Plan) (start : Timestamp) (records : List Run) :
    (RawResult.structured (closing p start records)).parse = .ok (some (closing p start records)) :=
  RawResult.parse_structured (Run.isEmpty_eq_false_of_status (by simp [closing]))

/-- The parent is completed and kept with the table of its children. -/
theorem parent_of_conclude (h : (conclude x p start records).on v = (.ok parent, w')) :
    parent.metadata = p.parent.metadata ∧ parent.spec = p.parent.spec ∧
      parent.status.bind RunStatus.iterations = some (IterationTable.ofRuns records) ∧
      parent.state? = (if hasFailed (failures records) records.length
        p.parent.spec.options.maxErrors then some .error else some .completed) ∧
      ∃ secrets events, w'.toJournal =
        v.toJournal.add { events, ledger := x.keeping secrets parent } := by
  obtain ⟨u, hf, rfl⟩ := conclude_eq_ok h
  obtain ⟨rfl, hj⟩ := Executor.finalize_eq_ok (parse_closing p start records) hf
  rw [World.toJournal_noting, hj, Journal.add_add, Entries.append_mk, List.append_nil,
    List.append_nil]
  refine ⟨rfl, rfl, ?_, ?_, _, _, rfl⟩
  · change (parentStatus start p.selector _ records).iterations = _
    exact parentStatus_iterations _ _ _ _
  · rw [Run.state?_completed]
    rw [state?_closing]
    split <;> simp

end Conclusion

end Sweep

end Experiment
