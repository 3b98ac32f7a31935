import Experiment.Proofs.Course

/-!
# What a sweep does as a whole

Every task is handed over exactly once and in order, whatever becomes of it, and the sweep fails only
where its parent is finalized. This holds for the runtimes of this library with one exception, a kind
with blanks around it that the definition leaves to be filled in: then no task is handed over at all.
-/

namespace Experiment.Sweep
variable {x : Executor} {definition parent : Run} {hyperparams : HyperParams} {p : Plan}
  {records : List Run} {start : Timestamp} {w u v w' : World} {e : RunError}

/-- No child stops the sweep: there is none, or the kind of the parent is accepted from its tasks. -/
def Unstopped (x : Executor) (definition : Run) (p : Plan) : Prop :=
  p.grid.size = 0 ∨ Text.trim definition.spec.runtime.kind ≠ "" ∨ x.KindFits

theorem handed_opened (hp : (plan x definition hyperparams).on w = (.ok p, u)) :
    (opened p u).handed = w.handed := by
  rw [opened, World.toJournal_noting, Journal.handed_add, List.append_nil, journal_of_plan hp]

/-- No child stops the sweep, and each is handed over in its turn. -/
theorem runChildren_of_unstopped (hb : x.runtime.Builtin) (hr : x.runtime.Reliable)
    (hp : (plan x definition hyperparams).on w = (.ok p, u)) (hs : Unstopped x definition p)
    (hN : p.grid.size < iterationBound) :
    ∃ records v, (runChildren x p.parent.uid p.tasks).on (opened p u) = (.ok records, v) ∧
      v.handed = w.handed ++ (List.range p.grid.size).map p.taskAt ∧
      records.length = p.grid.size := by
  have hready : ∀ task ∈ p.tasks, ∀ u', (x.prepare task).on u' = (.ok task, u') := by
    intro task ht
    obtain h0 | hk := hs
    · rw [Plan.tasks_eq hN, h0] at ht
      cases ht
    · exact prepare_of_mem_tasks hb hp hk ht
  obtain ⟨records, v, hc⟩ := runChildren_of_fates x p.parent.uid p.tasks
    (fun task ht u' e hf => Executor.failure_of_prepared hr (hready task ht u') hf) (opened p u)
  obtain ⟨entries, hj, -, hh⟩ := journal_runChildren hb.confined.storesNone hc
  have htasks : p.tasks.length = p.grid.size := by
    rw [Plan.tasks_eq hN, List.length_map, List.length_range]
  refine ⟨records, v, hc, ?_, (length_records hc).trans htasks⟩
  rw [hj, Journal.handed_add, hh hb.confined hready, handed_opened hp, ← Plan.tasks_eq hN]

theorem handed_finalize (x : Executor) (raw : RawResult) (w : World) :
    ((x.finalize raw).on w).2.handed = w.handed := by
  obtain ⟨events, calls, hj, -⟩ := x.closes_finalize raw w
  rw [hj, Journal.handed_add, List.append_nil]

theorem handed_conclude (x : Executor) (p : Plan) (start : Timestamp) (records : List Run)
    (w : World) : ((conclude x p start records).on w).2.handed = w.handed := by
  have hh := handed_finalize x (.structured (closing p start records)) w
  cases hf : (conclude x p start records).on w with
  | mk r w' =>
      cases r with
      | ok parent =>
          obtain ⟨u, hu, rfl⟩ := conclude_eq_ok hf
          rw [hu] at hh
          exact (List.append_nil _).trans hh
      | error e =>
          rw [conclude_eq_error hf] at hh
          exact hh

/-- The first task of a stopped sweep is refused before it is handed over. -/
theorem runChildren_of_stopped (hp : (plan x definition hyperparams).on w = (.ok p, u))
    (hs : ¬ Unstopped x definition p) (hN : p.grid.size < iterationBound) :
    (runChildren x p.parent.uid p.tasks).on (opened p u) = (.error (.configuration (.runtimeMismatch
      definition.metadata.name (Text.trim x.runtime.kind) x.runtime.kind)), opened p u) := by
  obtain ⟨h0, hs⟩ := not_or.1 hs
  obtain ⟨hb, hk⟩ := not_or.1 hs
  cases ht : p.tasks with
  | nil =>
      have hl := congrArg List.length (Plan.tasks_eq hN)
      rw [ht, List.length_map, List.length_range] at hl
      exact absurd hl.symm h0
  | cons task rest =>
      have he := execute_of_mem_tasks_unfit hp (not_not.1 hb) hk (ht ▸ List.mem_cons_self)
        (opened p u)
      have hc : (child x p.parent.uid task).on (opened p u) = (.error (.configuration
          (.runtimeMismatch definition.metadata.name (Text.trim x.runtime.kind) x.runtime.kind)),
          opened p u) := by
        rw [on_child, runChild_of_configuration he rfl]
      rw [runChildren, Attempt.on_bind_of_error hc]

theorem state_parent_eq_error {maxErrors : Option Nat} :
    (if hasFailed (failures records) records.length maxErrors then some RunState.error
        else some .completed) = some .error ↔
      match maxErrors with
      | some limit => limit < (IterationTable.ofRuns records).errorRows
      | none => 0 < records.length ∧ (IterationTable.ofRuns records).errorRows = records.length := by
  rw [IterationTable.errorRows_ofRuns, ← failures]
  cases maxErrors <;> simp [hasFailed]

theorem taskAt_eq (p : Plan) (i : Nat) :
    (p.taskAt i).metadata = { p.parent.metadata with iteration := i + 1 } ∧
      (i < p.grid.size → ∃ point, p.grid.point? i = some point ∧ (p.taskAt i).spec =
        { p.parent.spec with parameters := p.parent.spec.parameters.extend point }) :=
  ⟨rfl, fun h => ⟨_, if_pos h, rfl⟩⟩

/-- A sweep that can be planned runs all its children, and then fails only with its parent, or it
runs none. -/
theorem runs_all_children (x : Executor) (definition : Run) (hyperparams : HyperParams)
    (hb : x.runtime.Builtin) (hr : x.runtime.Reliable)
    (hn : hyperparams.isEmpty = false) (hp : (plan x definition hyperparams).on w = (.ok p, u))
    (hN : p.grid.size < iterationBound) :
    (¬ Unstopped x definition p → ∃ v, v.handed = w.handed ∧
      (run x definition hyperparams).on w = (.error (.configuration (.runtimeMismatch
        definition.metadata.name (Text.trim x.runtime.kind) x.runtime.kind)), v)) ∧
    (Unstopped x definition p →
      (∀ i, (p.taskAt i).metadata = { p.parent.metadata with iteration := i + 1 } ∧
        (i < p.grid.size → ∃ point, p.grid.point? i = some point ∧ (p.taskAt i).spec =
          { p.parent.spec with parameters := p.parent.spec.parameters.extend point })) ∧
      ((run x definition hyperparams).on w).2.handed =
        w.handed ++ (List.range p.grid.size).map p.taskAt ∧
      ∃ records v, (runChildren x p.parent.uid p.tasks).on (opened p u) = (.ok records, v) ∧
        (∀ e w', (run x definition hyperparams).on w = (.error e, w') →
          (x.finalize (.structured (closing p u.clock records))).on v = (.error e, w')) ∧
        ∀ parent w', (run x definition hyperparams).on w = (.ok parent, w') →
          parent.metadata = { definition.metadata with uid := parent.metadata.uid } ∧
          parent.uid ≠ "" ∧
          (definition.uid ≠ "" → parent.metadata = definition.metadata) ∧
          parent.spec = { definition.spec with
            hyperparams
            runtime := { definition.spec.runtime with kind := x.kindFor definition } } ∧
          ∃ table, parent.status.bind RunStatus.iterations = some table ∧
            table.rows.length = p.grid.size ∧ (p.grid.size = 0 → table = {}) ∧
            (parent.state? = some .error ∨ parent.state? = some .completed) ∧
            (parent.state? = some .error ↔ match definition.spec.options.maxErrors with
              | some limit => limit < table.errorRows
              | none => 0 < p.grid.size ∧ table.errorRows = p.grid.size)) := by
  have hplan := planned_of_plan hp
  have hrun := on_run hn hp
  rw [on_conduct] at hrun
  refine ⟨fun hs => ⟨opened p u, ?_, ?_⟩, fun hs => ⟨taskAt_eq p, ?_⟩⟩
  · exact handed_opened hp
  · rw [hrun, runChildren_of_stopped hp hs hN]
  · obtain ⟨records, v, hc, hv, hl⟩ := runChildren_of_unstopped hb hr hp hs hN
    rw [hc] at hrun
    refine ⟨?_, records, v, hc, fun e w' he => ?_, fun parent w' he => ?_⟩
    · rw [hrun]
      exact (handed_conclude x p u.clock records v).trans hv
    · rw [hrun] at he
      exact conclude_eq_error he
    · rw [hrun] at he
      obtain ⟨hm, hsp, ht, hst, -⟩ := parent_of_conclude he
      have hmeta : parent.metadata = { definition.metadata with uid := parent.metadata.uid } := by
        rw [hm]
        exact hplan.metadata
      have huid : parent.uid ≠ "" := by
        rw [Run.uid, hm]
        exact hplan.uid
      have hown : definition.uid ≠ "" → parent.metadata = definition.metadata := by
        intro hd
        rw [hm, hplan.metadata_of_uid hd]
      have hrows : (IterationTable.ofRuns records).rows.length = p.grid.size := by
        rw [IterationTable.length_rows_ofRuns, hl]
      have hempty : p.grid.size = 0 → IterationTable.ofRuns records = {} := by
        intro h0
        rw [List.eq_nil_of_length_eq_zero (hl.trans h0)]
        rfl
      have hmax : p.parent.spec.options.maxErrors = definition.spec.options.maxErrors := by
        rw [hplan.spec]
      refine ⟨hmeta, huid, hown, hsp.trans hplan.spec, _, ht, hrows, hempty, ?_, ?_⟩
      · rw [hst]
        split
        · exact .inl rfl
        · exact .inr rfl
      · rw [hst, hmax, ← hl]
        exact state_parent_eq_error

/-- Two points give two tasks. -/
theorem runs_all_children_echo :
    ((run { runtime := .echo "mock" } { metadata := { uid := some "u" } }
      [("p", [.null, .bool true])]).on {}).2.handed.map (·.metadata.iteration) = [1, 2] := by
  have h := (runs_all_children { runtime := .echo "mock" } { metadata := { uid := some "u" } }
    [("p", [.null, .bool true])] (w := {}) (.mock _ _ (Runtime.confined_scripted _ _))
    (fun _ _ _ _ he => by cases he) rfl rfl (by decide)).2
    (.inr (.inr (.inr rfl)))
  rw [h.2.1]
  rfl

/-- The filled in kind is not accepted from the task. -/
theorem run_of_padded_kind :
    (run { runtime := .echo " x " } { metadata := { uid := some "u" } } [("p", [.null])]).on {} =
      (.error (.configuration (.runtimeMismatch "" "x" " x ")),
        { events := [.sweepStarted "u" 1] }) := by
  rfl

end Experiment.Sweep
