import Experiment.Proofs.Course

/-!
# The identity of a record

A record is stored under its project, uid and iteration. What a result leaves out of uid and
iteration it takes from its task, but never the project, and what it brings of its own is kept. So
the record of a task has the identity of the task exactly when the result agrees with it: in uid and
iteration as far as it has them, in the project in any case.
-/

namespace Experiment

def Run.identity (run : Run) : String × String × Nat :=
  (run.metadata.project, run.uid, run.metadata.iteration)

/-- The result brings nothing that differs from its task, and the project of the task. -/
def Run.AgreesWith (result task : Run) : Prop :=
  result.metadata.project = task.metadata.project ∧ (result.uid = "" ∨ result.uid = task.uid) ∧
    (result.metadata.iteration = 0 ∨ result.metadata.iteration = task.metadata.iteration)

/-- What a run is stored under. -/
def DatabaseCall.key? : DatabaseCall → Option (String × String × Nat)
  | .run uid project _ value => some (project, uid, value.metadata.iteration)
  | _ => none

@[simp] theorem DatabaseCall.key?_ofRun (run : Run) : (ofRun run).key? = some run.identity := rfl

theorem Run.identity_carried {task result : Run} (now : Timestamp) :
    ((carryIdentity task result).completed now).identity = task.identity ↔
      result.AgreesWith task := by
  have hu : (carryIdentity task result).uid = task.uid ↔ result.uid = "" ∨ result.uid = task.uid := by
    rw [uid_carryIdentity]
    by_cases h : result.uid = "" <;> simp [h]
  have hi : (carryIdentity task result).metadata.iteration = task.metadata.iteration ↔
      result.metadata.iteration = 0 ∨ result.metadata.iteration = task.metadata.iteration := by
    rw [iteration_carryIdentity]
    by_cases h : result.metadata.iteration = 0 <;> simp [h]
  change ((carryIdentity task result).metadata.project, (carryIdentity task result).uid,
    (carryIdentity task result).metadata.iteration) = _ ↔ _
  rw [project_carryIdentity, identity, AgreesWith, Prod.mk.injEq, Prod.mk.injEq, hu, hi]

theorem Run.identity_eq {a b : Run} (h : a.metadata = b.metadata) : a.identity = b.identity := by
  rw [identity, identity, uid, uid, h]

theorem Run.agreesWith_congr {result a b : Run} (h : a.metadata = b.metadata) :
    result.AgreesWith a ↔ result.AgreesWith b := by
  rw [AgreesWith, AgreesWith, uid, uid, uid, h]

namespace Executor
variable {x : Executor} {run task result r : Run} {raw : RawResult} {w u v w' : World}

theorem record_of_execute (hp : (x.prepare run).on w = (.ok task, u))
    (ha : (x.runtime.execute task).on (handed task u) = (.ok raw, v))
    (hr : raw.parse = .ok (some result)) (h : (x.execute run).on w = (.ok r, w')) :
    (∃ now, r = (Run.carryIdentity task result).completed now) ∧
      ∃ secrets, w'.ledger = v.ledger ++ x.keeping secrets r := by
  obtain ⟨hrec, hl⟩ := record_of_result hp ha hr h
  exact ⟨⟨v.clock, hrec⟩, Secrets.resolve v.environment result, hl⟩

end Executor

namespace Sweep
variable {x : Executor} {uid : String} {tasks records : List Run} {w w' : World}

theorem identity_of_mem_children {c : Child} (h : c ∈ children x uid tasks w)
    (hu : c.task.uid ≠ "") : c.record.identity = c.task.identity ↔
      ∀ task result, c.fate = .kept task result → result.AgreesWith c.task := by
  obtain ⟨⟨now, hr⟩, v, hf⟩ := of_mem_children h
  rw [hr]
  cases hc : c.fate with
  | kept task result =>
      have hmeta := (Executor.prepares_of_fate_eq_kept (hf.symm.trans hc)).metadata_of_uid hu
      rw [Fate.record, ← Run.identity_eq hmeta, Run.identity_carried, Run.agreesWith_congr hmeta]
      constructor
      · intro ha _ _ hk
        cases hk
        exact ha
      · exact fun ha => ha task result rfl
  | silent | rejected _ | crashed _ | unreadable _ | refused _ _ _ =>
      exact ⟨fun _ _ _ hk => (by cases hk), fun _ => rfl⟩

theorem identities_of_children (hu : ∀ task ∈ tasks, task.uid ≠ "")
    (h : (runChildren x uid tasks).on w = (.ok records, w')) :
    records.map Run.identity = tasks.map Run.identity ↔ ∀ c ∈ children x uid tasks w,
      ∀ task result, c.fate = .kept task result → result.AgreesWith c.task := by
  obtain ⟨hrec, htask⟩ := runChildren_eq_ok h
  have hmem : ∀ c ∈ children x uid tasks w, c.task ∈ tasks := by
    intro c hc
    rw [← htask]
    exact List.mem_map_of_mem hc
  have hrecords : records.map Run.identity =
      (children x uid tasks w).map fun c => c.record.identity := by
    rw [← hrec, List.map_map]
    rfl
  have htasks : tasks.map Run.identity = (children x uid tasks w).map fun c => c.task.identity := by
    conv_lhs => rw [← htask, List.map_map]
    rfl
  rw [hrecords, htasks, List.map_inj_left]
  exact forall₂_congr fun c hc => identity_of_mem_children hc (hu _ (hmem c hc))

end Sweep

theorem identities_of_tasks {x : Executor} {definition : Run} {hyperparams : HyperParams}
    {p : Sweep.Plan} (hp : Sweep.Planned x definition hyperparams p)
    (hN : p.grid.size < iterationBound) :
    p.tasks.map Run.identity = (List.range p.grid.size).map fun i =>
      (definition.metadata.project, p.parent.uid, i + 1) := by
  have hproject : p.parent.metadata.project = definition.metadata.project := by
    rw [hp.metadata]
  rw [Sweep.Plan.tasks_eq hN, List.map_map, ← hproject]
  rfl

/-- Records have the identities of their tasks exactly where the results agree with the tasks. -/
theorem identity_of_records (x : Executor) :
    (∀ run w task u raw v result r w', (x.prepare run).on w = (.ok task, u) →
      (x.runtime.execute task).on (Executor.handed task u) = (.ok raw, v) →
      raw.parse = .ok (some result) → (x.execute run).on w = (.ok r, w') →
      (r.identity = task.identity ↔ result.AgreesWith task) ∧
        (x.database.isSome → ∃ secrets call, w'.ledger = v.ledger ++ [.connect secrets, call] ∧
          call = .run r.uid r.metadata.project true r ∧
          (call.key? = some task.identity ↔ result.AgreesWith task))) ∧
    (∀ definition hyperparams w p u records v,
      (Sweep.plan x definition hyperparams).on w = (.ok p, u) → p.grid.size < iterationBound →
      (Sweep.runChildren x p.parent.uid p.tasks).on (Sweep.opened p u) = (.ok records, v) →
      (records.map Run.identity = (List.range p.grid.size).map (fun i =>
          (definition.metadata.project, p.parent.uid, i + 1)) ↔
        ∀ c ∈ Sweep.children x p.parent.uid p.tasks (Sweep.opened p u),
          ∀ task result, c.fate = .kept task result → result.AgreesWith c.task)) := by
  refine ⟨?_, ?_⟩
  · intro run w task u raw v result r w' hp ha hr h
    obtain ⟨⟨now, hrec⟩, secrets, hl⟩ := Executor.record_of_execute hp ha hr h
    have hid : r.identity = task.identity ↔ result.AgreesWith task := by
      rw [hrec]
      exact Run.identity_carried now
    refine ⟨hid, fun hd => ?_⟩
    obtain ⟨db, hdb⟩ := Option.isSome_iff_exists.1 hd
    refine ⟨secrets, .ofRun r, ?_, rfl, ?_⟩
    · rw [hl, Executor.keeping, hdb]
    · rw [DatabaseCall.key?_ofRun, Option.some_inj, hid]
  · intro definition hyperparams w p u records v hp hN hc
    have hplan := Sweep.planned_of_plan hp
    rw [← identities_of_tasks hplan hN]
    exact Sweep.identities_of_children (fun task ht => hplan.uid_of_mem ht) hc

/-- A run keeps its identity, and so do the children of a sweep over two points. -/
theorem identity_of_records_echo :
    (∃ r w' secrets, (Executor.execute { runtime := .echo "mock", database := some (.ledger {}) }
        { metadata := { uid := some "u", project := "demo" } }).on {} = (.ok r, w') ∧
      r.identity = ("demo", "u", 0) ∧ w'.ledger = [.connect secrets, .ofRun r]) ∧
    ∃ p u records v, (Sweep.plan { runtime := .echo "mock", database := some (.ledger {}) }
        { metadata := { uid := some "u", project := "demo" } } [("p", [.null, .bool true])]).on {} =
          (.ok p, u) ∧
      (Sweep.runChildren { runtime := .echo "mock", database := some (.ledger {}) } p.parent.uid
        p.tasks).on (Sweep.opened p u) = (.ok records, v) ∧
      records.map Run.identity = [("demo", "u", 1), ("demo", "u", 2)] := by
  obtain ⟨hexecute, hsweep⟩ :=
    identity_of_records { runtime := .echo "mock", database := some (.ledger {}) }
  refine ⟨?_, ?_⟩
  · obtain ⟨hid, hstored⟩ := hexecute { metadata := { uid := some "u", project := "demo" } } {}
      _ _ _ _ _ _ _ rfl rfl rfl rfl
    obtain ⟨secrets, _, hl, rfl, -⟩ := hstored rfl
    exact ⟨_, _, secrets, rfl, hid.2 ⟨rfl, .inr rfl, .inl rfl⟩, hl⟩
  · obtain ⟨parent, w', h⟩ : ∃ parent w',
        (Sweep.run { runtime := .echo "mock", database := some (.ledger {}) }
          { metadata := { uid := some "u", project := "demo" } } [("p", [.null, .bool true])]).on {} =
        (.ok parent, w') := ⟨_, _, rfl⟩
    obtain ⟨p, u, records, v, hp, hc, -⟩ := Sweep.run_eq_ok rfl h
    obtain ⟨rfl, rfl⟩ := Attempt.on_ok_inj hp rfl
    refine ⟨_, _, records, v, hp, hc, (hsweep _ _ {} _ _ records v hp (by decide) hc).2 ?_⟩
    intro c hmem task result hf
    obtain rfl | hmem := List.mem_cons.1 (show c ∈ _ :: _ from hmem)
    · cases hf
      exact ⟨rfl, .inr rfl, .inr rfl⟩
    obtain rfl | hmem := List.mem_cons.1 (show c ∈ _ :: _ from hmem)
    · cases hf
      exact ⟨rfl, .inr rfl, .inr rfl⟩
    · cases hmem

/-- A result that is nothing but a status loses the project of its task. -/
theorem keys_of_status_only :
    ((Sweep.run
        { runtime := .answering "\x7b\"status\":\x7b\x7d\x7d" "mock", database := some (.ledger {}) }
        { metadata := { uid := some "u", project := "demo" } } [("p", [Json.ofNat 1])]).on
      {}).2.ledger.filterMap DatabaseCall.key? = [("", "u", 1), ("demo", "u", 0)] := by
  decide +kernel

end Experiment
