import Experiment.Proofs.Course

/-!
# The state of error

An error is never turned into a completed run: a run is completed only if its runtime gave a result
that is not one of error and every later step succeeded. The table of a sweep shows the error of a
child wherever it arose.
-/

namespace Experiment

namespace Fate

/-- What the table of a sweep shows for a child. -/
def cell : Fate → Json
  | .silent => .null
  | .kept _ result =>
    if result.state? = some .error then .string "error" else .string "completed"
  | .rejected _ | .crashed _ | .unreadable _ | .refused _ _ _ => .string "error"

theorem stateCell_record (now : Timestamp) {task : Run} (ht : task.status = none) (f : Fate) :
    IterationTable.stateCell (f.record now task) = f.cell := by
  rw [IterationTable.stateCell, state?_record now ht]
  cases f with
  | kept task' result =>
      by_cases he : result.state? = some .error <;> simp [state?, cell, he, RunState.name]
  | silent | rejected _ | crashed _ | unreadable _ | refused _ _ _ => rfl

theorem cell_eq_error {f : Fate}
    (h : f.failure? = none → ∃ task result, f = .kept task result ∧ result.state? = some .error) :
    f.cell = .string "error" := by
  cases f with
  | silent =>
      obtain ⟨_, _, h, -⟩ := h rfl
      cases h
  | kept task result =>
      obtain ⟨_, _, h, hs⟩ := h rfl
      cases h
      exact if_pos hs
  | rejected _ | crashed _ | unreadable _ | refused _ _ _ => rfl

end Fate

namespace Executor
variable {x : Executor} {run task result r : Run} {raw : RawResult} {w u v w' : World}

theorem of_execute_completed (h : (x.execute run).on w = (.ok r, w'))
    (hr : r.state? = some .completed) :
    ∃ task u raw v result, (x.prepare run).on w = (.ok task, u) ∧
      (x.runtime.execute task).on (handed task u) = (.ok raw, v) ∧
      raw.parse = .ok (some result) ∧ result.isEmpty = false ∧ result.state? ≠ some .error ∧
      ∃ v₁ v₂, (x.writeReport (Run.carryIdentity task result)).on v = (.ok (), v₁) ∧
        (x.save r).on v₁ = (.ok (), v₂) := by
  obtain ⟨task, u, raw, v, hp, ha, hx⟩ := execute_eq_ok h
  obtain ⟨-, rfl⟩ | ⟨result, v₁, v₂, hparse, hw, hrec, hs⟩ := hx
  · cases hr
  · refine ⟨task, u, raw, v, result, hp, ha, hparse, RawResult.isEmpty_of_parse hparse, ?_,
      v₁, v₂, hw, hs⟩
    intro he
    rw [hrec, Run.state?_completed, Run.state?_carryIdentity, if_pos he] at hr
    cases hr

theorem cell_of_error_result (hp : (x.prepare run).on w = (.ok task, u))
    (ha : (x.runtime.execute task).on (handed task u) = (.ok raw, v))
    (hr : raw.parse = .ok (some result)) (he : result.state? = some .error) :
    (x.fate run w).cell = .string "error" := by
  rw [fate, hp]
  dsimp only [fateOfTask]
  rw [ha]
  dsimp only [fateOfAnswer]
  rw [hr]
  refine Fate.cell_eq_error fun hn => ⟨task, result, ?_, he⟩
  dsimp only [fateOfResult] at hn ⊢
  cases hw : (x.writeReport (Run.carryIdentity task result)).on v with
  | mk r₁ v₁ =>
      rw [hw] at hn
      cases r₁ with
      | error e => cases hn
      | ok _ =>
          dsimp only at hn ⊢
          cases hs : ((x.save ((Run.carryIdentity task result).completed v₁.clock)).on v₁).1 with
          | error e =>
              rw [hs] at hn
              cases hn
          | ok _ => rfl

theorem state?_of_cell (hc : (x.fate run w).cell = .string "error")
    (h : (x.execute run).on w = (.ok r, w')) : r.state? = some .error := by
  obtain ⟨v, ⟨e, -, he⟩ | ⟨hf, -⟩ | ⟨now, task, result, hf, he⟩⟩ := x.execute_cases run w
  · rw [h] at he
    cases he
  · rw [hf] at hc
    cases hc
  · rw [h] at he
    cases he
    rw [hf] at hc
    dsimp only [Fate.cell] at hc
    rw [Run.state?_completed, Run.state?_carryIdentity]
    split at hc
    · rw [if_pos ‹_›]
    · simp at hc

end Executor

namespace Runtime

theorem on_handler (h : Handler) (policy : ArtifactPolicy) (task : Run) (w : World) :
    ((handler (some h) policy).execute task).on w =
      (.ok (.structured (((h (RunContext.ofRun task policy)).on w).1.1.conclude
        ((h (RunContext.ofRun task policy)).on w).1.2)),
        ((h (RunContext.ofRun task policy)).on w).2) := rfl

/-- A command that fails makes its task one of error, whatever it printed. -/
theorem followItems_of_failure (task : Run) (last : Option String) (lines : List String)
    (code : Option Nat) (errors : String) (w : World) :
    ∃ failed v, (followItems task last (lines.map .line ++ [.exit false code errors])).on w =
      (.ok (.structured failed), v) ∧ failed.state? = some .error := by
  induction lines generalizing last w with
  | nil => exact ⟨_, _, rfl, rfl⟩
  | cons text rest ih =>
      obtain ⟨failed, v, h, hs⟩ := ih (some text) (w.noting { events := [.logLine task.uid text] })
      exact ⟨failed, v, h, hs⟩

theorem exitOf_of_failure {p : ProcessOutput} (h : p.status ≠ .code 0) :
    ∃ code errors, OutputItem.exitOf p = .exit false code errors := by
  unfold OutputItem.exitOf
  cases hs : p.status with
  | signal n => exact ⟨none, _, rfl⟩
  | code n =>
      have hn : n ≠ 0 := fun e => h (by rw [hs, e])
      exact ⟨some n, (String.fromUTF8? p.errors).getD "", by simp [hn]⟩

/-- Whatever else a command puts out, one that fails is answered with an error. -/
theorem answer_of_failure (task : Run) {p : ProcessOutput} (h : p.status ≠ .code 0) (w : World) :
    ∃ failed v, (answer task p).on w = (.ok (.structured failed), v) ∧
      failed.state? = some .error := by
  obtain ⟨code, errors, he⟩ := exitOf_of_failure h
  rw [answer, OutputItem.ofOutput, he]
  exact followItems_of_failure task none _ code errors w

end Runtime

theorem RunContext.state?_conclude {c : RunContext} {outcome : Except RunError Unit}
    (h : c.error.isSome ∨ ∃ e, outcome = .error e) : (c.conclude outcome).state? = some .error := by
  cases outcome with
  | error e => rfl
  | ok _ =>
      obtain h | ⟨e, h⟩ := h
      · cases he : c.error with
        | none => simp [he] at h
        | some message =>
            unfold conclude result
            rw [he]
            rfl
      · cases h

theorem RawResult.parse_of_error {run : Run} (h : run.state? = some .error) :
    (structured run).parse = .ok (some run) := by
  refine parse_structured (Run.isEmpty_eq_false_of_status fun hn => ?_)
  rw [Run.state?, hn] at h
  cases h

namespace Sweep
variable {x : Executor} {definition parent : Run} {hyperparams : HyperParams} {w w' : World}

/-- The table of a sweep has a row for each child, and shows there what became of it. -/
theorem cells_of_run (hs : definition.status = none) (hn : hyperparams.isEmpty = false)
    (h : (run x definition hyperparams).on w = (.ok parent, w')) :
    ∃ p u, (plan x definition hyperparams).on w = (.ok p, u) ∧
      (children x p.parent.uid p.tasks (opened p u)).map Child.task = p.tasks ∧
      ((∀ c ∈ children x p.parent.uid p.tasks (opened p u), c.KeepsIteration) →
        ∃ table, parent.status.bind RunStatus.iterations = some table ∧
          table.rows.length = p.tasks.length ∧
          ∀ i c, (children x p.parent.uid p.tasks (opened p u))[i]? = some c →
            table.cell? i "state" = some c.fate.cell) := by
  obtain ⟨p, u, records, v, hp, hc, h⟩ := run_eq_ok hn h
  have htask := (runChildren_eq_ok hc).2
  obtain ⟨-, -, ht, -⟩ := parent_of_conclude h
  refine ⟨p, u, hp, htask, fun hk => ⟨_, ht, ?_, fun i c hi => ?_⟩⟩
  · rw [IterationTable.length_rows_ofRuns, length_records hc]
  · have hmem := List.mem_of_getElem? hi
    obtain ⟨⟨now, hr⟩, -⟩ := of_mem_children hmem
    have htask' : c.task ∈ p.tasks := htask ▸ List.mem_map_of_mem hmem
    have hstatus : c.task.status = none := by
      rw [(Plan.eq_of_mem_tasks htask').2.1, (planned_of_plan hp).status, hs]
    rw [cell_of_record hk hc hi, hr, Fate.stateCell_record now hstatus]

end Sweep

/-- An error is never turned into a completed run, wherever it arises. -/
theorem error_stays (x : Executor) :
    (∀ run w r w', (x.execute run).on w = (.ok r, w') → r.state? = some .completed →
      ∃ task u raw v result, (x.prepare run).on w = (.ok task, u) ∧
        (x.runtime.execute task).on (Executor.handed task u) = (.ok raw, v) ∧
        raw.parse = .ok (some result) ∧ result.isEmpty = false ∧ result.state? ≠ some .error ∧
        ∃ v₁ v₂, (x.writeReport (Run.carryIdentity task result)).on v = (.ok (), v₁) ∧
          (x.save r).on v₁ = (.ok (), v₂)) ∧
    (∀ run w task u raw v result, (x.prepare run).on w = (.ok task, u) →
      (x.runtime.execute task).on (Executor.handed task u) = (.ok raw, v) →
      raw.parse = .ok (some result) → result.state? = some .error →
      ∀ r w', (x.execute run).on w = (.ok r, w') → r.state? = some .error) ∧
    (∀ definition hyperparams w parent w', definition.status = none →
      hyperparams.isEmpty = false →
      (Sweep.run x definition hyperparams).on w = (.ok parent, w') →
      ∃ p u, (Sweep.plan x definition hyperparams).on w = (.ok p, u) ∧
        (Sweep.children x p.parent.uid p.tasks (Sweep.opened p u)).map Child.task = p.tasks ∧
        ((∀ c ∈ Sweep.children x p.parent.uid p.tasks (Sweep.opened p u), c.KeepsIteration) →
          ∃ table, parent.status.bind RunStatus.iterations = some table ∧
            table.rows.length = p.tasks.length ∧
            ∀ i c, (Sweep.children x p.parent.uid p.tasks (Sweep.opened p u))[i]? = some c →
              table.cell? i "state" = some c.fate.cell)) ∧
    (∀ run w task u output v, x.runtime = Runtime.process →
      (x.prepare run).on w = (.ok task, u) →
      (Process.launch
        { command := task.spec.runtime.command
          arguments := task.spec.runtime.args
          workdir := task.spec.runtime.workdir
          environment := [(OutputItem.taskVariable, task.encode.compact)] }).on
        (Executor.handed task u) = (.ok output, v) →
      output.status ≠ .code 0 →
      (x.runtime.execute task).on (Executor.handed task u) = (Runtime.answer task output).on v ∧
      (x.fate run w).cell = .string "error" ∧
        ∀ r w', (x.execute run).on w = (.ok r, w') → r.state? = some .error) ∧
    (∀ (task : Run) (output : ProcessOutput) w, output.status ≠ .code 0 → ∃ failed v,
      (Runtime.answer task output).on w = (.ok (.structured failed), v) ∧
        failed.state? = some .error) ∧
    (∀ run w task u h policy c outcome v, x.runtime = Runtime.handler (some h) policy →
      (x.prepare run).on w = (.ok task, u) →
      (h (RunContext.ofRun task policy)).on (Executor.handed task u) = ((c, outcome), v) →
      (c.error.isSome ∨ ∃ e, outcome = .error e) →
      (x.fate run w).cell = .string "error" ∧
        ∀ r w', (x.execute run).on w = (.ok r, w') → r.state? = some .error) := by
  refine ⟨?_, ?_, ?_, ?_, fun task output w hs => Runtime.answer_of_failure task hs w, ?_⟩
  · intro run w r w' h hr
    exact Executor.of_execute_completed h hr
  · intro run w task u raw v result hp ha hparse he r w' h
    exact Executor.state?_of_cell (Executor.cell_of_error_result hp ha hparse he) h
  · intro definition hyperparams w parent w' hs hn h
    exact Sweep.cells_of_run hs hn h
  · intro run w task u output v hx hp hl hs
    have hv : x.runtime.validate task = .ok () := by
      rw [← Executor.validate_filled hp, hx]
      exact Runtime.Builtin.process.validate_congr (by rw [(Executor.prepares_of_prepare hp).spec])
    have hanswer : (x.runtime.execute task).on (Executor.handed task u) =
        (Runtime.answer task output).on v := by
      rw [hx] at hv ⊢
      exact Runtime.on_process hv hl
    obtain ⟨failed, v', hf, hstate⟩ := Runtime.answer_of_failure task hs v
    have hcell := Executor.cell_of_error_result hp (hanswer.trans hf)
      (RawResult.parse_of_error hstate) hstate
    exact ⟨hanswer, hcell, fun r w' h => Executor.state?_of_cell hcell h⟩
  · intro run w task u h policy c outcome v hx hp hh he
    have hf : (x.runtime.execute task).on (Executor.handed task u) =
        (.ok (.structured (c.conclude outcome)), v) := by
      rw [hx, Runtime.on_handler, hh]
    have hstate := RunContext.state?_conclude he
    have hcell := Executor.cell_of_error_result hp hf (RawResult.parse_of_error hstate) hstate
    exact ⟨hcell, fun r w' h => Executor.state?_of_cell hcell h⟩

/-- The first task fails, the second has no result, all others have one. -/
def byTurns (task : Run) : Except RuntimeError RawResult :=
  match task.metadata.iteration with
  | 1 => .error (.execution "no")
  | 2 => .ok .empty
  | _ => .ok (Runtime.echoResult task)

/-- A machine on which every program prints that it is done, and yet fails. -/
def failingMachine : World where
  programs := fun _ files _ => .ok
    ({ output := "\x7b\"status\":\x7b\"state\":\"completed\"\x7d\x7d\n".toUTF8
       errors := ByteArray.empty
       status := .code 3 }, files)

/-- A handler that logs a result before it fails. -/
def giveUp : Handler :=
  fun c => pure (c.logResult "loss" .null, .error (.execution "no"))

theorem error_stays_by_turns :
    (∃ parent w' table, (Sweep.run { runtime := .scripted byTurns "mock" }
        { metadata := { uid := some "u" } } [("p", [.null, .null, .null])]).on {} =
        (.ok parent, w') ∧
      parent.status.bind RunStatus.iterations = some table ∧
      table.cell? 0 "state" = some (.string "error") ∧ table.cell? 1 "state" = some .null ∧
      table.cell? 2 "state" = some (.string "completed")) ∧
    (∃ r w', (Executor.execute { runtime := Runtime.process }
        { metadata := { uid := some "u" }
          spec := { runtime := { command := "python3" } } }).on failingMachine = (.ok r, w') ∧
      r.state? = some .error) ∧
    ∃ r w', (Executor.execute { runtime := .handler (some giveUp) {} }
        { metadata := { uid := some "u" } }).on {} = (.ok r, w') ∧ r.state? = some .error := by
  refine ⟨?_, ?_, ?_⟩
  · obtain ⟨p, u, hp, -, hk⟩ := (error_stays { runtime := .scripted byTurns "mock" }).2.2.1
      { metadata := { uid := some "u" } } [("p", [.null, .null, .null])] {} _ _ rfl rfl rfl
    obtain ⟨rfl, rfl⟩ := Attempt.on_ok_inj hp rfl
    obtain ⟨table, ht, -, hc⟩ := hk (by
      intro c hc task result hf
      obtain rfl | hc := List.mem_cons.1 (show c ∈ _ :: _ from hc)
      · cases hf
      obtain rfl | hc := List.mem_cons.1 (show c ∈ _ :: _ from hc)
      · cases hf
      obtain rfl | hc := List.mem_cons.1 (show c ∈ _ :: _ from hc)
      · cases hf
        exact .inr rfl
      · cases hc)
    exact ⟨_, _, table, rfl, ht, hc 0 _ rfl, hc 1 _ rfl, hc 2 _ rfl⟩
  · obtain ⟨-, -, -, hprocess, -⟩ := error_stays { runtime := Runtime.process }
    obtain ⟨-, -, hr⟩ := hprocess
      { metadata := { uid := some "u" }, spec := { runtime := { command := "python3" } } }
      failingMachine _ _ _ _ rfl rfl rfl (by decide)
    exact ⟨_, _, rfl, hr _ _ rfl⟩
  · obtain ⟨-, -, -, -, -, hhandler⟩ := error_stays { runtime := .handler (some giveUp) {} }
    obtain ⟨-, hr⟩ := hhandler { metadata := { uid := some "u" } } {} _ _ giveUp {} _ _ _ rfl rfl rfl
      (.inr ⟨_, rfl⟩)
    exact ⟨_, _, rfl, hr _ _ rfl⟩

end Experiment
