import Experiment.Proofs.Cells
import Experiment.Proofs.Records

/-!
# Children and their siblings

A child is told by its task, by the answer that its runtime has for it and by whether report and
record are accepted. What else is run in the same sweep changes which columns the table has and how
they are ordered, but not what the row of this child shows under a name: a name without a column is
one that the child has no value for. So two sweeps of one definition whose runtimes answer one task
alike agree on the row and on the record of that task, whatever they make of all others.
-/

namespace Experiment

/-- The run without the time of its last update. -/
def Run.undated (run : Run) : Run :=
  { run with status := run.status.map fun s => { s with lastUpdate := none } }

@[simp] theorem Run.state?_undated (run : Run) : run.undated.state? = run.state? := by
  obtain ⟨metadata, spec, status⟩ := run
  cases status <;> rfl

/-- The call without the time of the run that it stores. -/
def DatabaseCall.undated : DatabaseCall → DatabaseCall
  | .run uid project commit value => .run uid project commit value.undated
  | c => c

theorem DatabaseCall.undated_ofRun (run : Run) : (ofRun run).undated = ofRun run.undated := rfl

namespace IterationTable
variable {results : List Run} {run : Run} {name : String}

/-- What a row shows depends on nothing but its child. -/
theorem cell?_ofRuns {i : Nat} (hi : (byIteration results)[i]? = some run) (name : String) :
    ((ofRuns results).cell? i name).getD .null = shown name run := by
  rw [cell?_eq hi]
  split
  · rfl
  next hn =>
    have hrun : run ∈ results := mem_byIteration.1 (List.mem_of_getElem? hi)
    have hother : name ≠ "state" ∧ name ≠ "iter" := by simpa using fun h => hn (.inr h)
    rw [shown, if_neg hother.1, if_neg hother.2, find?_eq_none_of_not_mem (fun h => hn (.inl h)) hrun,
      Option.getD_none]

theorem shown_undated (name : String) (run : Run) : shown name run.undated = shown name run := by
  obtain ⟨metadata, spec, status⟩ := run
  cases status <;> rfl

theorem shown_congr {a b : Run} (h : a.undated = b.undated) (name : String) :
    shown name a = shown name b := by
  rw [← shown_undated, h, shown_undated]

end IterationTable

namespace Fate

theorem undated_record (f : Fate) (task : Run) (now now' : Timestamp) :
    (f.record now task).undated = (f.record now' task).undated := by
  cases f <;> rfl

/-- Neither the report nor the record of a result was refused. -/
def Accepted (f : Fate) : Prop :=
  ∀ task result e, f ≠ .refused task result e

end Fate

namespace Executor
variable {x y : Executor} {run parent task result : Run} {w v : World}

def onto (x : Executor) (r : Runtime) : Executor :=
  { x with runtime := r }

theorem fateOfResult_cases (x : Executor) (task result : Run) (w : World) :
    (∃ e, x.fateOfResult task result w = .refused task result e) ∨
      x.fateOfResult task result w = .kept task result := by
  unfold fateOfResult
  dsimp only
  split
  · exact .inl ⟨_, rfl⟩
  · split
    · exact .inl ⟨_, rfl⟩
    · exact .inr rfl

theorem fateOfResult_of_accepted (h : (x.fateOfResult task result w).Accepted) :
    x.fateOfResult task result w = .kept task result := by
  obtain ⟨e, hrefused⟩ | hkept := x.fateOfResult_cases task result w
  · exact absurd hrefused (h _ _ _)
  · exact hkept

theorem accepted_of_accepting (hx : x.Accepting) (hr : x.report = none) (run : Run) (w : World) :
    (x.fate run w).Accepted := by
  have hresult : ∀ task result v, (x.fateOfResult task result v).Accepted := by
    intro task result v t r e he
    have hwrite : (x.writeReport (Run.carryIdentity task result)).on v = (.ok (), v) := by
      rw [writeReport, hr]
      rfl
    rw [fateOfResult, hwrite] at he
    dsimp only at he
    rw [x.save_of_accepting hx] at he
    cases he
  intro t r e he
  rw [fate] at he
  split at he
  · cases he
  · rename_i task v _
    rw [fateOfTask] at he
    cases ha : ((x.runtime.execute task).on (handed task v)).1 with
    | error cause =>
        rw [ha] at he
        cases he
    | ok raw =>
        rw [ha, fateOfAnswer] at he
        split at he
        · cases he
        · cases he
        · exact hresult _ _ _ _ _ _ he

theorem kindFor_congr (hk : y.runtime.kind = x.runtime.kind) (run : Run) :
    y.kindFor run = x.kindFor run := by
  rw [kindFor, kindFor, hk]

theorem filled_congr (hk : y.runtime.kind = x.runtime.kind) (run : Run) :
    y.filled run = x.filled run := by
  rw [filled, filled, kindFor_congr hk]

theorem check_congr (hk : y.runtime.kind = x.runtime.kind)
    (hv : y.runtime.validate (x.filled run) = x.runtime.validate (x.filled run)) :
    y.check run = x.check run := by
  have hkind : y.withKind run = x.withKind run := by rw [withKind, withKind, hk]
  rw [check, check, hkind]
  cases h : x.withKind run with
  | error e => rfl
  | ok filled =>
      obtain ⟨rfl, -⟩ := withKind_eq_ok h
      dsimp only
      rw [hv]

theorem filled_of_prepare (h : (x.prepare run).on w = (.ok parent, v))
    (ht : task.spec.runtime = parent.spec.runtime) : x.filled task = task := by
  have hkind : task.spec.runtime.kind = x.kindFor run := by rw [ht, runtime_of_prepare h]
  refine filled_eq_self ?_
  rw [kindFor]
  split
  · rw [hkind, kindFor]
    split
    · rfl
    · rename_i hblank hasked
      rw [hkind, kindFor, if_neg hasked] at hblank
      exact absurd hblank hasked
  · rfl

/-- The runtimes of two executors find the same wrong with a task, and have the same answer to it
where it has its turn. -/
structure Alike (x y : Executor) (task : Run) (v w : World) : Prop where
  validate : y.runtime.validate task = x.runtime.validate task
  answer : ((y.runtime.execute task).on (handed task w)).1 =
    ((x.runtime.execute task).on (handed task v)).1

theorem fateOfTask_congr (hw : y.complaint = x.complaint) (h : x.Alike y task v w)
    (hx : (x.fateOfTask task v).Accepted)
    (hy : (y.fateOfTask task w).Accepted) : y.fateOfTask task w = x.fateOfTask task v := by
  rw [fateOfTask] at hx hy
  rw [fateOfTask, fateOfTask]
  rw [h.answer] at hy ⊢
  cases ha : ((x.runtime.execute task).on (handed task v)).1 with
  | error e => rfl
  | ok raw =>
      rw [ha] at hx hy
      dsimp only [fateOfAnswer] at hx hy ⊢
      cases hr : raw.parse with
      | error text =>
          dsimp only
          rw [hw]
      | ok found =>
          rw [hr] at hx hy
          cases found with
          | none => rfl
          | some result =>
              dsimp only at hx hy ⊢
              rw [fateOfResult_of_accepted hx, fateOfResult_of_accepted hy]

/-- What comes of a task does not depend on the world beyond its answer. -/
theorem fate_congr (hk : y.runtime.kind = x.runtime.kind) (hw : y.complaint = x.complaint)
    (hf : x.filled task = task) (hu : task.uid ≠ "") (h : x.Alike y task v w) (hx : (x.fate task v).Accepted)
    (hy : (y.fate task w).Accepted) : y.fate task w = x.fate task v := by
  have hcheck : y.check task = x.check task := check_congr hk (by rw [hf, h.validate])
  rcases hc : x.check task with ⟨filled, outcome⟩
  rw [hc] at hcheck
  cases outcome with
  | error e =>
      rw [fate, fate, on_prepare_of_error (by rw [hcheck]), on_prepare_of_error (by rw [hc])]
  | ok _ =>
      obtain rfl : filled = task := (withKind_eq_ok (check_eq_ok.1 hc).1).1.trans hf
      have hfate : x.fate filled v = x.fateOfTask filled v := by
        rw [fate, on_prepare_of_prepared hc hu]
      have hfate' : y.fate filled w = y.fateOfTask filled w := by
        rw [fate, on_prepare_of_prepared hcheck hu]
      rw [hfate] at hx ⊢
      rw [hfate'] at hy ⊢
      exact fateOfTask_congr hw h hx hy

end Executor

namespace Sweep
variable {x y : Executor} {definition parent task record : Run} {hyperparams : HyperParams}
  {p q : Plan} {tasks records : List Run} {uid : String} {u v v' w w' : World} {i : Nat}

/-- The children of a planned sweep. -/
def childrenOf (x : Executor) (p : Plan) (w : World) : List Child :=
  children x p.parent.uid p.tasks (opened p w)

/-- What is left of a child: its row in the table, and what was stored in its turn. -/
structure Remains (x : Executor) (p : Plan) (w : World) (t : IterationTable) (i : Nat) (c : Child) :
    Prop where
  child : (childrenOf x p w)[i]? = some c
  fate : c.fate = x.fate c.task (turn x p w i)
  record : ∃ now, c.record = c.fate.record now c.task
  row : ∀ name, (t.cell? i name).getD .null = IterationTable.shown name c.record
  state : t.cell? i "state" = some (IterationTable.stateCell c.record)
  iter : t.cell? i "iter" = some (Json.ofNat c.task.metadata.iteration)
  stored : ∃ added, (turn x p w (i + 1)).ledger = (turn x p w i).ledger ++ added ∧
    storedRuns added = c.stored x

theorem remains_of_runChildren (hr : x.runtime.Confined) (hx : x.Accepting)
    (hk : ∀ c ∈ childrenOf x p w, c.KeepsIteration)
    (h : (runChildren x p.parent.uid p.tasks).on (opened p w) = (.ok records, v))
    (hi : p.tasks[i]? = some task) :
    ∃ c, c.task = task ∧ Remains x p w (IterationTable.ofRuns records) i c := by
  obtain ⟨c, hchild, rfl, hfate, hc⟩ := child_of_getElem? h hi
  rw [← turn] at hfate
  rw [← turn, ← turn] at hc
  rw [← childrenOf] at hchild
  have hmem := List.mem_of_getElem? hchild
  have hrecords : (childrenOf x p w).map Child.record = records := (runChildren_eq_ok h).1
  have hrow : (IterationTable.byIteration records)[i]? = some c.record := by
    rw [byIteration_children hk h, ← hrecords, List.getElem?_map, hchild]
    rfl
  obtain ⟨now, hrecord⟩ := child_eq_ok hc
  obtain ⟨entries, hj, hs, -⟩ := journal_child hr.storesNone hc
  rw [← hfate] at hrecord hs
  refine ⟨c, rfl, hchild, hfate, ⟨now, hrecord⟩, IterationTable.cell?_ofRuns hrow, ?_, ?_,
    entries.ledger, ?_, hs hx⟩
  · rw [IterationTable.cell?_state_ofRuns, hrow]
    rfl
  · rw [IterationTable.cell?_iter_ofRuns, hrow, ← iteration_of_mem_children hmem (hk c hmem)]
    rfl
  · rw [hj, Journal.ledger_add]

/-- Executors whose runtimes are called the same plan a definition with a uid alike. -/
theorem plan_congr (hk : y.runtime.kind = x.runtime.kind) (hu : definition.uid ≠ "")
    (hp : (plan x definition hyperparams).on w = (.ok p, u))
    (hq : (plan y definition hyperparams).on w' = (.ok q, v)) : q = p := by
  obtain ⟨a, ha, hs, hg, hparent⟩ := plan_eq_ok hp
  obtain ⟨b, hb, hs', hg', hparent'⟩ := plan_eq_ok hq
  obtain rfl : b = a := by
    have hpa := Executor.prepares_of_prepare ha
    have hpb := Executor.prepares_of_prepare hb
    obtain ⟨metadata, spec, status⟩ := b
    obtain rfl : metadata = a.metadata := (hpb.metadata_of_uid hu).trans (hpa.metadata_of_uid hu).symm
    obtain rfl : spec = a.spec := by
      rw [show spec = _ from hpb.spec, Executor.filled_congr hk, hpa.spec]
    obtain rfl : status = a.status := (show status = _ from hpb.status).trans hpa.status.symm
    rfl
  obtain ⟨parent, selector, grid⟩ := q
  rw [hs] at hs'
  rw [hg] at hg'
  cases hs'
  cases hg'
  obtain rfl : parent = p.parent := hparent'.trans hparent.symm
  rfl

theorem stored_undated {c c' : Child} (hd : y.database = x.database) (hf : c'.fate = c.fate)
    (hr : c'.record.undated = c.record.undated) :
    (c'.stored y).map DatabaseCall.undated = (c.stored x).map DatabaseCall.undated := by
  rw [Child.stored, Child.stored, hf, Executor.storing, Executor.storing, hd]
  split
  · rfl
  · cases x.database with
    | none => rfl
    | some db => simp only [List.map_cons, List.map_nil, DatabaseCall.undated_ofRun, hr]

/-- Two sweeps of one definition agree on a task that both runtimes answer alike in its turn. They
show the same in its row under every name, and keep and store the same record of it but for the time
of its last update, whatever the runtimes make of the other tasks. -/
theorem rows_of_siblings (x : Executor) (r : Runtime) (definition : Run) (hyperparams : HyperParams)
    (hk : r.kind = x.runtime.kind) (hc : x.runtime.Confined) (hc' : r.Confined) (hx : x.Accepting)
    (hu : definition.uid ≠ "") (hn : hyperparams.isEmpty = false) {parent' : Run}
    (h : (run x definition hyperparams).on w = (.ok parent, w'))
    (h' : (run (x.onto r) definition hyperparams).on v = (.ok parent', v')) :
    ∃ p u u' t t', (plan x definition hyperparams).on w = (.ok p, u) ∧
      (plan (x.onto r) definition hyperparams).on v = (.ok p, u') ∧
      parent.status.bind RunStatus.iterations = some t ∧
      parent'.status.bind RunStatus.iterations = some t' ∧
      ((∀ c ∈ childrenOf x p u, c.KeepsIteration) →
        (∀ c ∈ childrenOf (x.onto r) p u', c.KeepsIteration) →
        ∀ i task, p.tasks[i]? = some task →
          x.Alike (x.onto r) task (turn x p u i) (turn (x.onto r) p u' i) →
          (x.fate task (turn x p u i)).Accepted →
          ((x.onto r).fate task (turn (x.onto r) p u' i)).Accepted →
          (∀ name, (t'.cell? i name).getD .null = (t.cell? i name).getD .null) ∧
          ∃ c c', c.task = task ∧ Remains x p u t i c ∧
            c'.task = task ∧ Remains (x.onto r) p u' t' i c' ∧
            c'.record.undated = c.record.undated ∧ c'.record.state? = c.record.state? ∧
            (c'.stored (x.onto r)).map DatabaseCall.undated =
              (c.stored x).map DatabaseCall.undated) := by
  obtain ⟨p, u, records, _, hp, hrun, hend⟩ := run_eq_ok hn h
  obtain ⟨q, u', records', _, hq, hrun', hend'⟩ := run_eq_ok hn h'
  obtain rfl : q = p := plan_congr hk hu hp hq
  obtain ⟨-, -, ht, -⟩ := parent_of_conclude hend
  obtain ⟨-, -, ht', -⟩ := parent_of_conclude hend'
  refine ⟨q, u, u', _, _, hp, hq, ht, ht', fun hkeep hkeep' i task hi halike ha ha' => ?_⟩
  have hx' : (x.onto r).Accepting := hx
  obtain ⟨c, rfl, hc⟩ := remains_of_runChildren hc hx hkeep hrun hi
  obtain ⟨c', htask, hc'⟩ := remains_of_runChildren (x := x.onto r) hc' hx' hkeep' hrun' hi
  have hmem : c.task ∈ q.tasks := List.mem_of_getElem? hi
  have hfilled : x.filled c.task = c.task := by
    obtain ⟨prepared, hprepared, -, -, hparent⟩ := plan_eq_ok hp
    exact Executor.filled_of_prepare hprepared
      ((Plan.eq_of_mem_tasks hmem).1.trans (by rw [hparent]))
  have hfate : c'.fate = c.fate := by
    rw [hc.fate, hc'.fate, htask]
    exact Executor.fate_congr hk rfl hfilled ((planned_of_plan hp).uid_of_mem hmem) halike ha ha'
  have hrecord : c'.record.undated = c.record.undated := by
    obtain ⟨now, hnow⟩ := hc.record
    obtain ⟨now', hnow'⟩ := hc'.record
    rw [hnow, hnow', hfate, htask, Fate.undated_record _ _ now' now]
  refine ⟨fun name => ?_, c, c', rfl, hc, htask, hc', hrecord, ?_, stored_undated rfl hfate hrecord⟩
  · rw [hc.row, hc'.row, IterationTable.shown_congr hrecord]
  · rw [← Run.state?_undated, hrecord, Run.state?_undated]

/-- The first task fails, all others have a result. -/
def failingFirst (task : Run) : Except RuntimeError RawResult :=
  if task.metadata.iteration = 1 then .error (.execution "no") else .ok (Runtime.echoResult task)

/-- The second row stays as it is when the first child fails and its outputs are gone. -/
theorem rows_of_siblings_failing_first : ∃ parent parent' w w' t t',
    (run { runtime := .echo "mock", database := some (.ledger {}) } { metadata := { uid := some "u" } }
      [("p", [.null, .bool true])]).on {} = (.ok parent, w) ∧
    (run { runtime := .scripted failingFirst "mock", database := some (.ledger {}) }
      { metadata := { uid := some "u" } } [("p", [.null, .bool true])]).on {} = (.ok parent', w') ∧
    parent.status.bind RunStatus.iterations = some t ∧
    parent'.status.bind RunStatus.iterations = some t' ∧
    ∀ name, (t'.cell? 1 name).getD .null = (t.cell? 1 name).getD .null := by
  obtain ⟨parent, w, h⟩ : ∃ parent w, (run { runtime := .echo "mock", database := some (.ledger {}) }
      { metadata := { uid := some "u" } } [("p", [.null, .bool true])]).on {} = (.ok parent, w) :=
    ⟨_, _, rfl⟩
  obtain ⟨parent', w', h'⟩ : ∃ parent w, (run (Executor.onto
      { runtime := .echo "mock", database := some (.ledger {}) } (.scripted failingFirst "mock"))
      { metadata := { uid := some "u" } } [("p", [.null, .bool true])]).on {} = (.ok parent, w) :=
    ⟨_, _, rfl⟩
  obtain ⟨p, u, u', t, t', hp, hp', ht, ht', hrows⟩ := rows_of_siblings
    { runtime := .echo "mock", database := some (.ledger {}) } (.scripted failingFirst "mock")
    { metadata := { uid := some "u" } } [("p", [.null, .bool true])] rfl
    (Runtime.confined_scripted _ _) (Runtime.confined_scripted _ _) accepting_ledger (by decide) rfl
    h h'
  obtain ⟨rfl, rfl⟩ := Attempt.on_ok_inj hp rfl
  obtain ⟨-, rfl⟩ := Attempt.on_ok_inj hp' rfl
  refine ⟨parent, parent', w, w', t, t', h, h', ht, ht', (hrows ?_ ?_ 1 _ rfl ⟨rfl, rfl⟩ ?_ ?_).1⟩
  · intro c hc task result hf
    obtain rfl | hc := List.mem_cons.1 (show c ∈ _ :: _ from hc)
    · cases hf
      exact .inr rfl
    obtain rfl | hc := List.mem_cons.1 (show c ∈ _ :: _ from hc)
    · cases hf
      exact .inr rfl
    · cases hc
  · intro c hc task result hf
    obtain rfl | hc := List.mem_cons.1 (show c ∈ _ :: _ from hc)
    · cases hf
    obtain rfl | hc := List.mem_cons.1 (show c ∈ _ :: _ from hc)
    · cases hf
      exact .inr rfl
    · cases hc
  · exact Executor.accepted_of_accepting accepting_ledger rfl _ _
  · exact Executor.accepted_of_accepting (x := Executor.onto _ _) accepting_ledger rfl _ _

end Sweep

end Experiment
