import Experiment.Proofs.Course

/-!
# Which secrets a connection receives

A failure is recorded with the secrets of its task, and the parent of a sweep is finalized with those
of its definition. A result, however, is stored with the secrets that it names itself, and names
none if it leaves its spec out. So a task is kept with its own secrets exactly when its result
resolves to the same ones. That nothing but the secrets of a run is received is said by comparing
databases: those that differ at most in how they receive other secrets cannot be told apart.
-/

namespace Experiment

theorem Secrets.resolve_congr {a b : Run} (h : a.spec.secretSources = b.spec.secretSources)
    (environment : OrderedMap String) : resolve environment a = resolve environment b := by
  rw [resolve, h, resolve]

namespace Database
variable {a b : Database} {run other : Run} {secrets : Secrets} {w : World}

/-- The two differ at most in how they receive secrets that are not those of the run. -/
structure AlikeFor (run : Run) (a b : Database) : Prop where
  keepRun : a.keepRun = b.keepRun
  receive : ∀ w : World, (a.receive (Secrets.resolve w.environment run)).on w =
    (b.receive (Secrets.resolve w.environment run)).on w

theorem AlikeFor.congr (h : a.AlikeFor run b)
    (hs : other.spec.secretSources = run.spec.secretSources) : a.AlikeFor other b where
  keepRun := h.keepRun
  receive w := by
    rw [Secrets.resolve_congr hs, h.receive w]

theorem connect_congr (h : (a.receive secrets).on w = (b.receive secrets).on w) :
    (a.connect secrets).on w = (b.connect secrets).on w := by
  rw [connect, connect, recorded, recorded, Attempt.on_bind, Attempt.on_bind, h]

theorem storeRun_congr (h : a.keepRun = b.keepRun) (uid project : String) (commit : Bool) :
    a.storeRun run uid project commit = b.storeRun run uid project commit := by
  rw [storeRun, storeRun, h]

/-- A database that receives nothing but the secrets of this run. -/
def reserved (run : Run) : Database :=
  { ledger {} with
    receive := fun secrets => do
      let w ← get
      refuseIf (secrets ≠ Secrets.resolve w.environment run) (.connect "rec://" "refused")
    quiet_receive := fun _ => .bind (fun _ => rfl) fun _ => quiet_refuseIf _ _ }

theorem on_receive_reserved (run : Run) (secrets : Secrets) (w : World) :
    ((reserved run).receive secrets).on w =
      (if secrets = Secrets.resolve w.environment run then .ok ()
        else .error (.connect "rec://" "refused"), w) := by
  change (refuseIf (decide (secrets ≠ Secrets.resolve w.environment run)) _).on w = _
  by_cases h : secrets = Secrets.resolve w.environment run <;> simp [h, refuseIf]

theorem alikeFor_reserved (run : Run) : (ledger {}).AlikeFor run (reserved run) where
  keepRun := rfl
  receive w := by
    rw [on_receive_reserved, if_pos rfl]
    rfl

end Database

namespace Executor
variable {x : Executor} {run task result final : Run} {a b : Database} {w u v w' : World}
  {e : RunError}

/-- The same executor with this database. -/
def recordingTo (x : Executor) (db : Database) : Executor :=
  { x with database := some db }

/-- A result that can be reported has the secrets of its run, once its runtime is done. -/
def KeepsSecrets (x : Executor) (run : Run) (w : World) : Prop :=
  ∀ task u raw v result, (x.prepare run).on w = (.ok task, u) →
    (x.runtime.execute task).on (handed task u) = (.ok raw, v) → raw.parse = .ok (some result) →
    ((x.writeReport (Run.carryIdentity task result)).on v).1 = .ok () →
    Secrets.resolve v.environment result = Secrets.resolve v.environment run

@[simp] theorem runtime_recordingTo (x : Executor) (db : Database) :
    (x.recordingTo db).runtime = x.runtime := rfl

@[simp] theorem prepare_recordingTo (x : Executor) (db : Database) (run : Run) :
    (x.recordingTo db).prepare run = x.prepare run := by
  have hk : (x.recordingTo db).withKind run = x.withKind run := by
    rw [withKind, withKind, runtime_recordingTo]
  have hc : (x.recordingTo db).check run = x.check run := by
    rw [check, check, hk, runtime_recordingTo]
  rw [prepare, prepare, hc]

@[simp] theorem writeReport_recordingTo (x : Executor) (db : Database) (run : Run) :
    (x.recordingTo db).writeReport run = x.writeReport run := by
  simp only [writeReport, recordingTo]

theorem save_congr (hab : a.AlikeFor run b)
    (hs : Secrets.resolve w.environment result = Secrets.resolve w.environment run) :
    ((x.recordingTo a).save result).on w = ((x.recordingTo b).save result).on w := by
  change (Attempt.mapError RunError.persistence _).on w =
    (Attempt.mapError RunError.persistence _).on w
  rw [Attempt.on_mapError, Attempt.on_mapError, Attempt.on_get_bind, Attempt.on_get_bind,
    Attempt.on_bind, Attempt.on_bind, Database.connect_congr (hs ▸ hab.receive w),
    Database.storeRun_congr hab.keepRun]

theorem finalize_congr (hab : a.AlikeFor run b)
    (hp : (RawResult.structured final).parse = .ok (some final))
    (hs : ((x.writeReport final).on w).1 = .ok () →
      Secrets.resolve w.environment final = Secrets.resolve w.environment run) :
    ((x.recordingTo a).finalize (.structured final)).on w =
      ((x.recordingTo b).finalize (.structured final)).on w := by
  cases hr : (x.writeReport final).on w with
  | mk r v =>
      have hr' : ∀ db, ((x.recordingTo db).writeReport final).on w = (r, v) :=
        fun db => by rw [writeReport_recordingTo, hr]
      cases r with
      | error e =>
          rw [on_finalize hp, on_finalize hp, Attempt.on_bind_of_error (hr' a),
            Attempt.on_bind_of_error (hr' b)]
      | ok _ =>
          obtain ⟨-, he, -⟩ := World.eq_of_apartFromFiles ((x.keeps_writeReport final).of_on hr)
          have hsave : Secrets.resolve v.environment (final.completed v.clock) =
              Secrets.resolve v.environment run := by
            rw [he, ← hs (by rw [hr])]
            exact Secrets.resolve_congr rfl w.environment
          rw [on_finalize_of_report hp (hr' a), on_finalize_of_report hp (hr' b),
            save_congr hab hsave]

/-- Where the result keeps the secrets of its run, no other secrets are received. -/
theorem execute_congr (hab : a.AlikeFor run b) (hk : x.KeepsSecrets run w) :
    ((x.recordingTo a).execute run).on w = ((x.recordingTo b).execute run).on w := by
  cases hp : (x.prepare run).on w with
  | mk r u =>
      have hp' : ∀ db, ((x.recordingTo db).prepare run).on w = (r, u) :=
        fun db => by rw [prepare_recordingTo, hp]
      cases r with
      | error e =>
          rw [execute, execute, Attempt.on_bind_of_error (hp' a), Attempt.on_bind_of_error (hp' b)]
      | ok task =>
          cases ha : (x.runtime.execute task).on (handed task u) with
          | mk answer v =>
              cases answer with
              | error cause =>
                  have h : ∀ db, ((x.recordingTo db).execute run).on w =
                      (.error (.ofRuntime cause), v) := fun db => on_execute_of_crashed (hp' db) ha
                  rw [h, h]
              | ok raw =>
                  have h : ∀ db, ((x.recordingTo db).execute run).on w =
                      ((x.recordingTo db).settle task raw).on v :=
                    fun db => on_execute_of_answer (hp' db) ha
                  rw [h, h, on_settle, on_settle]
                  cases hr : raw.parse with
                  | error e => rfl
                  | ok found =>
                      cases found with
                      | none => rfl
                      | some result =>
                          have hn := Run.isEmpty_carryIdentity result (prepares_of_prepare hp).uid
                          dsimp only
                          refine finalize_congr hab (RawResult.parse_structured hn) fun hw => ?_
                          rw [← hk task u raw v result hp ha hr hw]
                          exact Secrets.resolve_congr rfl v.environment

theorem recordFailure_congr (hab : a.AlikeFor run b) (e : RunError) (w : World) :
    ((x.recordingTo a).recordFailure run e).on w = ((x.recordingTo b).recordFailure run e).on w := by
  have hs : ((x.recordingTo a).save (run.failed w.clock e.message)).on w =
      ((x.recordingTo b).save (run.failed w.clock e.message)).on w :=
    save_congr hab (Secrets.resolve_congr rfl w.environment)
  simp only [recordFailure, Action.on_bind, Run.on_fail, Attempt.on_run, hs]

theorem save_reserved (h : ((x.recordingTo (.reserved run)).save result).on w = (.ok (), w')) :
    Secrets.resolve w.environment result = Secrets.resolve w.environment run := by
  have hm := Attempt.on_mapError_eq_ok.1 h
  rw [Attempt.on_get_bind] at hm
  obtain ⟨_, v, hc, -⟩ := Attempt.on_bind_eq_ok.1 hm
  obtain ⟨_, u, hr, -⟩ := Attempt.on_bind_eq_ok.1 hc
  rw [Database.on_receive_reserved] at hr
  by_contra hs
  rw [if_neg hs] at hr
  cases hr

/-- A database that accepts everything and one that receives only the secrets of the run differ in
what comes of a result with other secrets. -/
theorem resolve_of_finalize_eq (hp : (RawResult.structured final).parse = .ok (some final))
    (hr : (x.writeReport final).on w = (.ok (), v))
    (h : ((x.recordingTo (.ledger {})).finalize (.structured final)).on w =
      ((x.recordingTo (.reserved run)).finalize (.structured final)).on w) :
    Secrets.resolve w.environment final = Secrets.resolve w.environment run := by
  have hr' : ∀ db, ((x.recordingTo db).writeReport final).on w = (.ok (), v) :=
    fun db => by rw [writeReport_recordingTo, hr]
  have hx : (x.recordingTo (.ledger {})).Accepting := by
    rintro _ ⟨⟩
    exact Database.accepting_ledger
  have hok := save_of_accepting hx (final.completed v.clock) v
  rw [on_finalize_of_report hp (hr' _), on_finalize_of_report hp (hr' _)] at h
  cases ha : ((x.recordingTo (.ledger {})).save (final.completed v.clock)).on v with
  | mk r₁ u₁ =>
      cases hb : ((x.recordingTo (.reserved run)).save (final.completed v.clock)).on v with
      | mk r₂ u₂ =>
          rw [ha] at hok
          cases hok
          rw [ha, hb] at h
          cases r₂ with
          | error e => cases h
          | ok _ =>
              obtain ⟨-, he, -⟩ := World.eq_of_apartFromFiles ((x.keeps_writeReport final).of_on hr)
              rw [← he, ← save_reserved hb]
              exact Secrets.resolve_congr rfl v.environment

theorem keepsSecrets_of_execute_eq (h : ((x.recordingTo (.ledger {})).execute run).on w =
    ((x.recordingTo (.reserved run)).execute run).on w) : x.KeepsSecrets run w := by
  intro task u raw v result hp ha hr hw
  have hn := RawResult.parse_structured
    (Run.isEmpty_carryIdentity result (prepares_of_prepare hp).uid)
  have hp' : ∀ db, ((x.recordingTo db).prepare run).on w = (.ok task, u) :=
    fun db => by rw [prepare_recordingTo, hp]
  rw [(on_execute_of_result (hp' _) ha hr).1, (on_execute_of_result (hp' _) ha hr).1] at h
  rw [← resolve_of_finalize_eq hn (Prod.ext hw rfl) h]
  exact Secrets.resolve_congr rfl v.environment

end Executor

namespace Sweep
variable {x y : Executor} {definition task : Run} {hyperparams : HyperParams} {uid : String}
  {tasks : List Run} {a b : Database} {p : Plan} {w u : World}

theorem runChild_congr (hx : (x.execute task).on w = (y.execute task).on w)
    (hf : ∀ e v, (x.recordFailure task e).on v = (y.recordFailure task e).on v) :
    (runChild x task).on w = (runChild y task).on w := by
  rw [runChild, runChild, Attempt.on_bind_of_ok (Attempt.on_outcome _ w),
    Attempt.on_bind_of_ok (Attempt.on_outcome _ w), hx]
  cases ((y.execute task).on w).1 with
  | ok result => rfl
  | error e =>
      have hl : ∀ v, Attempt.on (liftM (x.recordFailure task e) : Attempt RunError Run) v =
          Attempt.on (liftM (y.recordFailure task e) : Attempt RunError Run) v :=
        fun v => by rw [Attempt.on_lift, Attempt.on_lift, hf]
      cases e with
      | configuration cause => rfl
      | parse _ | storage _ | persistence _ | execution _ | report _ _ | overflow _ => exact hl _

theorem runChildren_congr (hab : ∀ t ∈ tasks, a.AlikeFor t b)
    (hk : ∀ t v, Turn (x.recordingTo a) uid tasks w t v → x.KeepsSecrets t v) :
    (runChildren (x.recordingTo a) uid tasks).on w =
      (runChildren (x.recordingTo b) uid tasks).on w := by
  induction tasks generalizing w with
  | nil => rfl
  | cons task tasks ih =>
      have hc : (child (x.recordingTo a) uid task).on w = (child (x.recordingTo b) uid task).on w := by
        have hab' := hab task List.mem_cons_self
        rw [on_child, on_child, runChild_congr
          (Executor.execute_congr hab' (hk task w (.here task tasks w)))
          (Executor.recordFailure_congr hab')]
      rw [runChildren, runChildren, Attempt.on_bind, Attempt.on_bind, ← hc]
      cases hr : (child (x.recordingTo a) uid task).on w with
      | mk r v =>
          cases r with
          | error e => rfl
          | ok record =>
              dsimp only
              rw [Attempt.on_bind, Attempt.on_bind, ih (fun t ht => hab t (List.mem_cons_of_mem _ ht))
                fun t u ht => hk t u (.later hr ht)]

theorem conclude_congr (hab : a.AlikeFor p.parent b) (start : Timestamp) (records : List Run)
    (w : World) : (conclude (x.recordingTo a) p start records).on w =
      (conclude (x.recordingTo b) p start records).on w := by
  have hf := Executor.finalize_congr (x := x) (w := w) hab (parse_closing p start records)
    fun _ => Secrets.resolve_congr rfl w.environment
  rw [conclude, conclude, Attempt.on_bind, Attempt.on_bind]
  rw [closing] at hf
  rw [hf]

theorem plan_recordingTo (x : Executor) (db : Database) (definition : Run)
    (hyperparams : HyperParams) :
    plan (x.recordingTo db) definition hyperparams = plan x definition hyperparams := by
  rw [plan, plan, Executor.prepare_recordingTo]

/-- A sweep has the secrets of its definition received, unless a child has others. -/
theorem run_congr (hab : a.AlikeFor definition b) (hn : hyperparams.isEmpty = false)
    (hk : ∀ p u, (plan x definition hyperparams).on w = (.ok p, u) → ∀ t v,
      Turn (x.recordingTo a) p.parent.uid p.tasks (opened p u) t v → x.KeepsSecrets t v) :
    (run (x.recordingTo a) definition hyperparams).on w =
      (run (x.recordingTo b) definition hyperparams).on w := by
  cases hp : (plan x definition hyperparams).on w with
  | mk r u =>
      have hp' : ∀ db, (plan (x.recordingTo db) definition hyperparams).on w = (r, u) :=
        fun db => by rw [plan_recordingTo, hp]
      cases r with
      | error e => rw [on_run_of_error hn (hp' a), on_run_of_error hn (hp' b)]
      | ok p =>
          have hs : p.parent.spec.secretSources = definition.spec.secretSources := by
            rw [(planned_of_plan hp).spec]
          have ht : ∀ t ∈ p.tasks, a.AlikeFor t b :=
            fun t ht => hab.congr ((Plan.secretSources_of_mem_tasks ht).trans hs)
          rw [on_run hn (hp' a), on_run hn (hp' b), on_conduct, on_conduct,
            runChildren_congr ht (hk p u hp)]
          cases (runChildren (x.recordingTo b) p.parent.uid p.tasks).on (opened p u) with
          | mk r v =>
              cases r with
              | error e => rfl
              | ok records => exact conclude_congr (hab.congr hs) u.clock records v

end Sweep

/-- A task is kept with its own secrets exactly when its result resolves to them. -/
theorem connections_of_records (x : Executor) :
    (∀ run w, (∀ a b : Database, a.AlikeFor run b → ((x.recordingTo a).execute run).on w =
        ((x.recordingTo b).execute run).on w) ↔ x.KeepsSecrets run w) ∧
    (∀ db run w task u raw v result r w', (x.prepare run).on w = (.ok task, u) →
      (x.runtime.execute task).on (Executor.handed task u) = (.ok raw, v) →
      raw.parse = .ok (some result) → ((x.recordingTo db).execute run).on w = (.ok r, w') →
      w'.ledger = v.ledger ++ [.connect (Secrets.resolve v.environment result),
        .run r.uid r.metadata.project true r]) ∧
    (∀ run e w, (∀ a b : Database, a.AlikeFor run b →
        ((x.recordingTo a).recordFailure run e).on w =
          ((x.recordingTo b).recordFailure run e).on w) ∧
      ∀ db : Database, db.Accepting → ∃ failed w',
        ((x.recordingTo db).recordFailure run e).on w = (failed, w') ∧
        w'.ledger = w.ledger ++ [.connect (Secrets.resolve w.environment run),
          .run failed.uid failed.metadata.project true failed]) ∧
    (∀ definition hyperparams w (a b : Database), a.AlikeFor definition b →
      hyperparams.isEmpty = false →
      (∀ p u, (Sweep.plan x definition hyperparams).on w = (.ok p, u) → ∀ t v,
        Sweep.Turn (x.recordingTo a) p.parent.uid p.tasks (Sweep.opened p u) t v →
        x.KeepsSecrets t v) →
      (Sweep.run (x.recordingTo a) definition hyperparams).on w =
        (Sweep.run (x.recordingTo b) definition hyperparams).on w) := by
  refine ⟨fun run w => ⟨fun h => ?_, fun hk a b hab => Executor.execute_congr hab hk⟩, ?_,
    fun run e w => ⟨fun a b hab => Executor.recordFailure_congr hab e w, fun db hd => ?_⟩,
    fun definition hyperparams w a b hab hn hk => Sweep.run_congr hab hn hk⟩
  · exact Executor.keepsSecrets_of_execute_eq (h _ _ (Database.alikeFor_reserved run))
  · intro db run w task u raw v result r w' hp ha hr h
    have hp' : ((x.recordingTo db).prepare run).on w = (.ok task, u) := by
      rw [Executor.prepare_recordingTo, hp]
    exact (Executor.record_of_result hp' ha hr h).2
  · have hx : (x.recordingTo db).Accepting := by
      rintro _ ⟨⟩
      exact hd
    obtain ⟨calls, w', hv, hj, rfl | ⟨-, hs⟩⟩ := (x.recordingTo db).on_recordFailure run e w
    · refine ⟨_, w', hv, ?_⟩
      rw [hj, Journal.ledger_add]
      rfl
    · exact absurd ((x.recordingTo db).save_of_accepting hx _ w) hs

/-- A run that brings its own token. -/
def Run.ofToken (token : String) : Run where
  metadata := { uid := some "u" }
  spec := { secretSources := [⟨"inline", .object [("token", .string token)]⟩] }

theorem spec_of_echo {kind : String} {task result : Run} {raw : RawResult} {w v : World}
    (ha : ((Runtime.echo kind).execute task).on w = (.ok raw, v))
    (hr : raw.parse = .ok (some result)) : result.spec = task.spec := by
  cases ha
  rw [Runtime.echoResult, RawResult.parse] at hr
  split at hr
  · cases hr
  · cases hr
    rfl

theorem keepsSecrets_echo (kind : String) (run : Run) (w : World) :
    Executor.KeepsSecrets { runtime := .echo kind } run w := by
  intro task u raw v result hp ha hr hw
  have hspec := spec_of_echo ha hr
  rw [(Executor.prepares_of_prepare hp).spec] at hspec
  exact Secrets.resolve_congr (by rw [hspec]; rfl) v.environment

/-- Run, recorded as a failure and varied, a run has its own token received. -/
theorem connections_of_records_echo :
    let token := Secrets.resolve [] (.ofToken "abc")
    let echoing (db : Database) : Executor := { runtime := .echo "mock", database := some db }
    ((echoing (.ledger {})).execute (.ofToken "abc")).on {} =
      ((echoing (.reserved (.ofToken "abc"))).execute (.ofToken "abc")).on {} ∧
    (∃ r w', ((echoing (.ledger {})).execute (.ofToken "abc")).on {} = (.ok r, w') ∧
      w'.ledger = [.connect token, .ofRun r]) ∧
    (∃ failed w', ((echoing (.ledger {})).recordFailure (.ofToken "abc") (.parse "")).on {} =
        (failed, w') ∧ w'.ledger = [.connect token, .ofRun failed]) ∧
    (Sweep.run (echoing (.ledger {})) (.ofToken "abc") [("p", [.null, .bool true])]).on {} =
      (Sweep.run (echoing (.reserved (.ofToken "abc"))) (.ofToken "abc")
        [("p", [.null, .bool true])]).on {} := by
  obtain ⟨hexecute, hresult, hfailure, hsweep⟩ := connections_of_records { runtime := .echo "mock" }
  have halike := Database.alikeFor_reserved (.ofToken "abc")
  refine ⟨?_, ?_, ?_, ?_⟩
  · exact (hexecute _ {}).2 (keepsSecrets_echo "mock" _ {}) _ _ halike
  · have hp : (Executor.prepare { runtime := .echo "mock" } (.ofToken "abc")).on {} =
        (.ok (Executor.filled { runtime := .echo "mock" } (.ofToken "abc")), {}) := rfl
    obtain ⟨r, w', h⟩ : ∃ r w', (Executor.execute
        { runtime := .echo "mock", database := some (.ledger {}) } (.ofToken "abc")).on {} =
          (.ok r, w') := ⟨_, _, rfl⟩
    -- found before it is compared, so that the echoed result is the one that is resolved
    have hl := hresult (.ledger {}) _ {} _ _ _ _ _ r w' hp rfl rfl h
    exact ⟨r, w', h, hl⟩
  · exact (hfailure (.ofToken "abc") (.parse "") {}).2 (.ledger {}) Database.accepting_ledger
  · exact hsweep _ _ {} _ _ halike rfl fun _ _ _ t v _ => keepsSecrets_echo "mock" t v

/-- A result that is nothing but a status is stored without the secrets of its task. -/
theorem secrets_of_status_only :
    ((Executor.execute
        { runtime := .answering "\x7b\"status\":\x7b\x7d\x7d" "mock", database := some (.ledger {}) }
        (.ofToken "abc")).on {}).2.ledger.head? = some (.connect .empty) ∧
    (Secrets.resolve [] (.ofToken "abc")).get? "token" = some "abc" := by
  decide +kernel

end Experiment
