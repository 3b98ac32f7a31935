import Experiment.Proofs.ErrorState
import Experiment.Proofs.Leaves
import Experiment.Proofs.Logging

/-!
# Leftovers of an earlier status

A definition may carry a status already. A handler starts from it: what it logs goes on top of the
outputs that were left over, and a state of error or a message that was left over stays. Only the
list of artifacts is made anew. So an old status decides the new result exactly where it has an
error that the handler does not have, or an output that the handler does not log.

The two runs are compared in worlds that differ in their journals, since each is handed its own
task; nothing that a handler does depends on the journal.
-/

namespace Experiment

namespace World
variable {α β ε δ ρ : Type}

def apartFromJournal (w : World) : World :=
  { w with toJournal := {} }

/-- Neither what comes of it nor what becomes of the rest of the world depends on the journal. -/
def Blind (f : World → ρ × World) : Prop :=
  ∀ v w, v.apartFromJournal = w.apartFromJournal →
    (f v).1 = (f w).1 ∧ (f v).2.apartFromJournal = (f w).2.apartFromJournal

theorem files_eq {v w : World} (h : v.apartFromJournal = w.apartFromJournal) :
    v.files = w.files := by
  have hfiles := congrArg World.files h
  exact hfiles

theorem with_files_eq {v w : World} (h : v.apartFromJournal = w.apartFromJournal)
    (files : FileTree) : apartFromJournal { v with files } = apartFromJournal { w with files } :=
  congrArg (fun u : World => { u with files }) h

namespace Blind

theorem pure (a : ρ) : Blind fun w => (a, w) := fun _ _ h => ⟨rfl, h⟩

theorem action_bind {x : Action α} {f : α → Action β} (hx : Blind x.on)
    (hf : ∀ u, Blind (f (x.on u).1).on) : Blind (Action.on (x >>= f)) := by
  intro v w h
  obtain ⟨hr, hw⟩ := hx v w h
  rw [Action.on_bind, Action.on_bind, hr]
  exact hf w _ _ hw

theorem bind {x : Attempt ε α} {f : α → Attempt ε β} (hx : Blind x.on)
    (hf : ∀ a, Blind (f a).on) : Blind (Attempt.on (x >>= f)) := by
  intro v w h
  obtain ⟨hr, hw⟩ := hx v w h
  rw [Attempt.on_bind, Attempt.on_bind]
  cases hv : x.on v with
  | mk r v' =>
      cases hu : x.on w with
      | mk r' w' =>
          rw [hv, hu] at hr hw
          obtain rfl : r = r' := hr
          cases r with
          | ok a => exact hf a v' w' hw
          | error e => exact ⟨rfl, hw⟩

theorem mapError {x : Attempt ε α} (f : ε → δ) (hx : Blind x.on) : Blind (x.mapError f).on := by
  intro v w h
  obtain ⟨hr, hw⟩ := hx v w h
  rw [Attempt.on_mapError, Attempt.on_mapError, hr]
  exact ⟨rfl, hw⟩

end Blind

theorem blind_changeFiles (change : FileTree → Except OsError FileTree) :
    Blind (changeFiles change).on := by
  intro v w h
  unfold changeFiles
  rw [Attempt.on_get_bind, Attempt.on_get_bind, files_eq h]
  cases change w.files with
  | ok files => exact ⟨rfl, with_files_eq h files⟩
  | error e => exact ⟨rfl, h⟩

theorem blind_createDirectories (p : FilePath) : Blind (createDirectories p).on := by
  intro v w h
  unfold createDirectories
  rw [Attempt.on_get_bind, Attempt.on_get_bind, files_eq h]
  cases w.files.createDirectories p with
  | mk files refused => cases refused <;> exact ⟨rfl, with_files_eq h files⟩

theorem blind_readFile (p : FilePath) : Blind (readFile p).on := by
  intro v w h
  rw [Store.on_readFile, Store.on_readFile, files_eq h]
  exact ⟨rfl, h⟩

end World

namespace Store
open World

theorem blind_putObject (path : String) (body : ByteArray) : Blind (putObject path body).on :=
  fun _ _ h => ⟨rfl, congrArg
    (fun u : World => { u with memory := OrderedMap.insert path body u.memory }) h⟩

theorem blind_ensureParent (path : FilePath) : Blind (ensureParent path).on := by
  rw [ensureParent]
  split
  · split
    · exact .pure _
    · exact blind_createDirectories _
  · exact .pure _

theorem blind_put (b : Backend) (path : String) (body : ByteArray) :
    Blind (put b path body).on := by
  cases b with
  | memory =>
      intro v w h
      exact ⟨rfl, (blind_putObject path body v w h).2⟩
  | file => exact .mapError _ (.bind (blind_ensureParent path) fun _ => blind_changeFiles _)

theorem blind_upload (b : Backend) (path : String) (source : FilePath) :
    Blind (upload b path source).on := by
  cases b with
  | memory =>
      exact .bind (.mapError _ (blind_readFile source)) fun body => blind_put .memory path body
  | file =>
      refine .mapError _ (.bind (blind_ensureParent path) fun _ => ?_)
      split
      · exact .pure _
      · exact blind_changeFiles _

end Store

/-- What a database makes of an artifact does not depend on the journal. -/
def Database.BlindToJournal (db : Database) : Prop :=
  ∀ key summary tag project, World.Blind (db.keepArtifact key summary tag project).on

theorem Database.blind_directory (root : FilePath) : (directory root).BlindToJournal := by
  intro key summary tag project
  refine .mapError _ ?_
  split
  · exact .bind (World.blind_createDirectories _) fun _ => World.blind_changeFiles _
  · exact World.blind_changeFiles _

theorem Database.blind_ledger (refusals : Refusals) : (ledger refusals).BlindToJournal := by
  intro key summary tag project
  change World.Blind (refuseIf _ _).on
  cases refusals.artifacts.covers key <;> exact .pure _

namespace ArtifactManager
open World
variable {m m' : ArtifactManager} {item : LogItem} {o : LogOptions} {w w' : World}

def BlindToJournal (m : ArtifactManager) : Prop :=
  ∀ db, m.policy.database = some db → db.BlindToJournal

theorem blind_send (m : ArtifactManager) (item : LogItem) (o : LogOptions) :
    Blind (m.send item o).on := by
  rw [send]
  split
  · intro v w h
    cases hr : Store.resolve (m.entryOf item o).targetPath with
    | error e =>
        rw [upload_of_refused hr, upload_of_refused hr]
        exact ⟨rfl, h⟩
    | ok target =>
        rw [on_upload hr, on_upload hr, files_eq h]
        cases payload? (requestOf item o).1 o with
        | some body => exact Blind.mapError _ (Store.blind_put _ _ body) v w h
        | none =>
            dsimp only
            split
            · exact Blind.mapError _ (Store.blind_upload _ _ _) v w h
            · cases m.policy.upload <;> exact ⟨rfl, h⟩
  · exact .pure _

theorem blind_report (m : ArtifactManager) {db : Database} (hdb : db.BlindToJournal)
    (a : Artifact) : Blind (m.report db a).on :=
  .mapError _ (.bind (hdb _ _ _ _) fun _ _ _ h => ⟨rfl, h⟩)

theorem blind_log (hm : m.BlindToJournal) (item : LogItem) (o : LogOptions) :
    Blind (m.log item o).on := by
  rw [log_eq]
  refine .action_bind (blind_send m item o) fun u => ?_
  rw [Attempt.on_run]
  cases ((m.send item o).on u).1 with
  | error e => exact .pure _
  | ok _ =>
      cases hdb : m.policy.database with
      | none => exact .pure _
      | some db => exact .action_bind (blind_report m (hm db hdb) _) fun _ => .pure _

end ArtifactManager

namespace Run

def withStatus (s : Option RunStatus) (run : Run) : Run :=
  { run with status := s }

def error? (run : Run) : Option String :=
  run.status.bind RunStatus.error

def outputArtifacts (run : Run) : List ArtifactSummary :=
  (run.status.map RunStatus.outputArtifacts).getD []

/-- The same came of both. Outputs are compared key by key. -/
structure SameOutcome (a b : Run) : Prop where
  state : a.state? = b.state?
  error : a.error? = b.error?
  outputs : ∀ key, OrderedMap.find? key a.outputs = OrderedMap.find? key b.outputs
  artifacts : a.outputArtifacts = b.outputArtifacts

/-- What one run leaves over decides nothing exactly where another has it all itself. -/
theorem sameOutcome_iff {a b : Run} {old : RunStatus}
    (hstate : a.state? = if old.state = some .error then some .error else b.state?)
    (herror : a.error? = b.error?.or old.error)
    (houtputs : ∀ key, OrderedMap.find? key a.outputs =
      (OrderedMap.find? key b.outputs).or (OrderedMap.find? key old.outputs))
    (hartifacts : a.outputArtifacts = b.outputArtifacts) :
    a.SameOutcome b ↔ (old.state = some .error → b.state? = some .error) ∧
      (old.error.isSome → b.error?.isSome) ∧
      ∀ key, OrderedMap.has key old.outputs → OrderedMap.has key b.outputs := by
  have hor : ∀ {α : Type} (new old : Option α), new.or old = new ↔ (old.isSome → new.isSome) :=
    fun new old => by cases new <;> cases old <;> simp
  constructor
  · intro h
    refine ⟨fun he => ?_, (hor _ _).1 (herror ▸ h.error), fun key => ?_⟩
    · rw [← h.state, hstate, if_pos he]
    · exact (hor _ _).1 (houtputs key ▸ h.outputs key)
  · rintro ⟨hs, he, ho⟩
    refine ⟨?_, herror.trans ((hor _ _).2 he), fun key => ?_, hartifacts⟩
    · rw [hstate]
      split
      · exact (hs ‹_›).symm
      · rfl
    · rw [houtputs key]
      exact (hor _ _).2 (ho key)

theorem on_assignUid_withStatus (s : Option RunStatus) (run : Run) (w : World) :
    (run.withStatus s).assignUid.on w = ((run.assignUid.on w).1.withStatus s,
      (run.assignUid.on w).2) := by
  have huid : (run.withStatus s).uid = run.uid := rfl
  rw [assignUid, assignUid, huid]
  split <;> rfl

end Run

/-- What a handler does to its context, one thing at a time. -/
inductive HandlerStep where
  | logResult (key : String) (value : Json)
  /-- Unless it is ignored, an error of the call ends the handler. -/
  | logArtifact (item : LogItem) (o : LogOptions) ( ignored : Bool)
  | setError (message : String)

def HandlerStep.perform (c : RunContext) : HandlerStep → Action (RunContext × Except RunError Unit)
  | .logResult key value => pure (c.logResult key value, .ok ())
  | .logArtifact item o ignored => do
    let (c, outcome) ← c.logArtifact item o
    return (c, if ignored then .ok () else outcome)
  | .setError message => pure (c.setError message, .ok ())

/-- Steps one after the other, and how the handler ends after the last one. -/
def Handler.ofSteps (ending : Except RunError Unit) :
    List HandlerStep → RunContext → Action (RunContext × Except RunError Unit)
  | [], c => pure (c, ending)
  | step :: rest, c => do
    match ← step.perform c with
    | (c, .ok ()) => ofSteps ending rest c
    | (c, .error e) => return (c, .error e)

namespace RunContext
variable {c : RunContext} {w : World}

def withStatus (s : Option RunStatus) (c : RunContext) : RunContext :=
  { c with run := c.run.withStatus s }

theorem on_perform_withStatus (s : Option RunStatus) (c : RunContext) (step : HandlerStep)
    (w : World) : (step.perform (c.withStatus s)).on w =
      ((((step.perform c).on w).1.1.withStatus s, ((step.perform c).on w).1.2),
        ((step.perform c).on w).2) := by
  cases step <;> rfl

theorem on_ofSteps_withStatus (s : Option RunStatus) (ending : Except RunError Unit)
    (steps : List HandlerStep) (c : RunContext) (w : World) :
    (Handler.ofSteps ending steps (c.withStatus s)).on w =
      ((((Handler.ofSteps ending steps c).on w).1.1.withStatus s,
        ((Handler.ofSteps ending steps c).on w).1.2), ((Handler.ofSteps ending steps c).on w).2) := by
  induction steps generalizing c w with
  | nil => rfl
  | cons step rest ih =>
      rw [Handler.ofSteps, Handler.ofSteps, Action.on_bind, Action.on_bind, on_perform_withStatus]
      rcases (step.perform c).on w with ⟨⟨c', outcome⟩, w'⟩
      cases outcome with
      | error e => rfl
      | ok _ => exact ih c' w'

theorem policy_perform (c : RunContext) (step : HandlerStep) (w : World) :
    ((step.perform c).on w).1.1.artifacts.policy = c.artifacts.policy := by
  cases step with
  | logResult key value => rfl
  | logArtifact item o ignored =>
      rcases h : (c.artifacts.log item o).on w with ⟨⟨m, outcome⟩, w'⟩
      obtain ⟨a, -, rfl⟩ := (ArtifactManager.logs h).entered
      have hlog : ((HandlerStep.logArtifact item o ignored).perform c).on w =
          (({ c with artifacts := c.artifacts.enter a }, if ignored then .ok () else outcome), w') := by
        rw [HandlerStep.perform, Action.on_bind, logArtifact, Action.on_bind, h]
        rfl
      rw [hlog]
      rfl
  | setError message => rfl

theorem blind_perform (hc : c.artifacts.BlindToJournal) (step : HandlerStep) :
    World.Blind (step.perform c).on := by
  cases step with
  | logResult key value => exact .pure _
  | logArtifact item o ignored =>
      exact .action_bind (.action_bind (ArtifactManager.blind_log hc item o) fun _ => .pure _)
        fun _ => .pure _
  | setError message => exact .pure _

theorem blind_ofSteps (hc : c.artifacts.BlindToJournal) (ending : Except RunError Unit)
    (steps : List HandlerStep) : World.Blind (Handler.ofSteps ending steps c).on := by
  induction steps generalizing c with
  | nil => exact .pure _
  | cons step rest ih =>
      refine .action_bind (blind_perform hc step) fun u => ?_
      have hpolicy := policy_perform c step u
      rcases hstep : (step.perform c).on u with ⟨⟨c', outcome⟩, u'⟩
      rw [hstep] at hpolicy
      cases outcome with
      | error e => exact .pure _
      | ok _ => exact ih fun db hdb => hc db (hpolicy ▸ hdb)

/-- The error that a handler ends with, or the one that it set. -/
def failure? (c : RunContext) : Except RunError Unit → Option String
  | .ok () => c.error
  | .error e => some e.message

/-- Where a handler ends, on top of the status that it started from. -/
def finalStatus (c : RunContext) (outcome : Except RunError Unit) : RunStatus :=
  { c.run.statusOrNew with
    state := if (c.failure? outcome).isSome then some .error else c.run.statusOrNew.state
    error := (c.failure? outcome).or c.run.statusOrNew.error
    outputs := OrderedMap.extend c.run.statusOrNew.outputs c.outputs
    outputArtifacts := c.artifacts.summaries }

theorem status_conclude (c : RunContext) (outcome : Except RunError Unit) :
    (c.conclude outcome).status = some (c.finalStatus outcome) := by
  obtain ⟨run, artifacts, outputs, error⟩ := c
  cases outcome with
  | error e => rfl
  | ok _ => cases error <;> rfl

theorem parse_conclude (c : RunContext) (outcome : Except RunError Unit) :
    (RawResult.structured (c.conclude outcome)).parse = .ok (some (c.conclude outcome)) := by
  refine RawResult.parse_structured (Run.isEmpty_eq_false_of_status ?_)
  rw [status_conclude]
  exact Option.some_ne_none _

/-- The result of a task, as it is finalized. -/
def finished (c : RunContext) (outcome : Except RunError Unit) (task : Run) (now : Timestamp) : Run :=
  (Run.carryIdentity task (c.conclude outcome)).completed now

section Finished
variable (c : RunContext) (outcome : Except RunError Unit) (task : Run) (now : Timestamp)

theorem status_finished : (c.finished outcome task now).status =
    some (Run.completeStatus now (c.finalStatus outcome)) := by
  rw [finished, Run.completed, Run.updateStatus, Run.statusOrNew, Run.status_carryIdentity,
    status_conclude]
  rfl

theorem state?_finished : (c.finished outcome task now).state? =
    if (c.failure? outcome).isSome ∨ c.run.statusOrNew.state = some .error then some .error
    else some .completed := by
  rw [Run.state?, status_finished]
  change (Run.completeStatus now (c.finalStatus outcome)).state = _
  cases h : (c.failure? outcome).isSome with
  | true => simp [Run.completeStatus, finalStatus, h]
  | false =>
      by_cases he : c.run.statusOrNew.state = some .error <;>
        simp [Run.completeStatus, finalStatus, h, he]

theorem error?_finished : (c.finished outcome task now).error? =
    (c.failure? outcome).or c.run.statusOrNew.error := by
  rw [Run.error?, status_finished]
  rfl

theorem find?_outputs_finished (key : String) :
    OrderedMap.find? key (c.finished outcome task now).outputs =
      (OrderedMap.find? key c.outputs.reverse).or
        (OrderedMap.find? key c.run.statusOrNew.outputs) := by
  rw [Run.outputs, status_finished, ← OrderedMap.find?_extend]
  rfl

theorem outputArtifacts_finished :
    (c.finished outcome task now).outputArtifacts = c.artifacts.summaries := by
  rw [Run.outputArtifacts, status_finished]
  rfl

end Finished

/-- An old status lies below what comes of a context without one. -/
theorem finished_withStatus (c : RunContext) (outcome : Except RunError Unit) (old : RunStatus)
    (task task' : Run) (now now' : Timestamp) {a b : Run}
    (ha : a = (c.withStatus (some old)).finished outcome task now)
    (hb : b = (c.withStatus none).finished outcome task' now') :
    a.state? = (if old.state = some .error then some .error else b.state?) ∧
      a.error? = b.error?.or old.error ∧
      (∀ key, OrderedMap.find? key a.outputs =
        (OrderedMap.find? key b.outputs).or (OrderedMap.find? key old.outputs)) ∧
      a.outputArtifacts = b.outputArtifacts := by
  have hold : (c.withStatus (some old)).run.statusOrNew = old := rfl
  have hnew : (c.withStatus none).run.statusOrNew = {} := rfl
  subst ha hb
  refine ⟨?_, ?_, fun key => ?_, ?_⟩
  · rw [state?_finished, state?_finished, hold, hnew]
    change (if (c.failure? outcome).isSome ∨ _ then _ else _) =
      if _ then _ else if (c.failure? outcome).isSome ∨ _ then _ else _
    by_cases h : old.state = some .error <;> simp [h]
  · rw [error?_finished, error?_finished, hold, hnew, Option.or_none]
    rfl
  · rw [find?_outputs_finished, find?_outputs_finished, hold, hnew, OrderedMap.find?_nil,
      Option.or_none]
    rfl
  · rw [outputArtifacts_finished, outputArtifacts_finished]
    rfl

end RunContext

namespace Executor
variable {x : Executor} {run task r : Run} {h : Handler} {policy : ArtifactPolicy} {w u w' : World}

theorem check_withStatus (hx : x.runtime = .handler (some h) policy) (s : Option RunStatus)
    (run : Run) : x.check (run.withStatus s) = ((x.check run).1.withStatus s, (x.check run).2) := by
  have hkind : x.withKind (run.withStatus s) = (x.withKind run).map (Run.withStatus s) := by
    have hspec : (run.withStatus s).spec = run.spec := rfl
    rw [withKind, withKind, hspec]
    split
    · rfl
    · split <;> rfl
  rw [check, check, hkind]
  cases x.withKind run with
  | error e => rfl
  | ok run =>
      rw [hx]
      rfl

/-- A status is carried through preparing, and makes no difference to it. -/
theorem on_prepare_withStatus (hx : x.runtime = .handler (some h) policy) (s : Option RunStatus)
    (run : Run) (w : World) : (x.prepare (run.withStatus s)).on w =
      (((x.prepare run).on w).1.map (Run.withStatus s), ((x.prepare run).on w).2) := by
  have hcheck := check_withStatus hx s run
  rcases hc : x.check run with ⟨filled, outcome⟩
  rw [hc] at hcheck
  cases outcome with
  | error e =>
      rw [on_prepare_of_error (by rw [hcheck]), on_prepare_of_error (by rw [hc])]
      rfl
  | ok _ =>
      rw [on_prepare_of_ok hcheck, on_prepare_of_ok hc, Run.on_assignUid_withStatus]
      rfl

theorem prepared_of_withStatus (hx : x.runtime = .handler (some h) policy) {s : Option RunStatus}
    (he : (x.execute (run.withStatus s)).on w = (.ok r, w')) :
    ∃ task u, (x.prepare run).on w = (.ok task, u) := by
  obtain ⟨_, _, hp, -⟩ := Attempt.on_bind_eq_ok.1 he
  rw [on_prepare_withStatus hx] at hp
  rcases hprepared : (x.prepare run).on w with ⟨prepared, u⟩
  rw [hprepared] at hp
  cases prepared with
  | error e => cases hp
  | ok task => exact ⟨task, u, rfl⟩

/-- What a handler was executed for and was returned is its context, finished. -/
theorem finished_of_execute (hx : x.runtime = .handler (some h) policy)
    (hp : (x.prepare run).on w = (.ok task, u)) (he : (x.execute run).on w = (.ok r, w')) :
    ∃ now, r = ((h (RunContext.ofRun task policy)).on (handed task u)).1.1.finished
      ((h (RunContext.ofRun task policy)).on (handed task u)).1.2 task now := by
  obtain ⟨task', u', raw, v, hp', ha, hres⟩ := execute_eq_ok he
  rw [hp] at hp'
  cases hp'
  rw [hx, Runtime.on_handler] at ha
  cases ha
  obtain ⟨hnone, -⟩ | ⟨result, v₁, -, hsome, -, rfl, -⟩ := hres
  · rw [RunContext.parse_conclude] at hnone
    cases hnone
  · rw [RunContext.parse_conclude] at hsome
    cases hsome
    exact ⟨v₁.clock, rfl⟩

/-- What a handler is executed for fails only before it or after it. -/
theorem failed_of_handler {e : RunError} (hx : x.runtime = .handler (some h) policy)
    (he : ((x.execute run).on w).1 = .error e) :
    ((x.prepare run).on w).1 = .error e ∨ ∃ task result, x.fate run w = .refused task result e := by
  obtain ⟨now, ho⟩ := x.outcome_execute run w
  rw [he, fate] at ho
  rw [fate]
  rcases hp : (x.prepare run).on w with ⟨prepared, u⟩
  rw [hp] at ho
  cases prepared with
  | error e' =>
      cases ho
      exact .inl rfl
  | ok task =>
      refine .inr ?_
      dsimp only [fateOfTask] at ho ⊢
      rw [hx, Runtime.on_handler] at ho ⊢
      dsimp only [fateOfAnswer] at ho ⊢
      rw [RunContext.parse_conclude] at ho ⊢
      dsimp only [fateOfResult] at ho ⊢
      split at ho
      · cases ho
        exact ⟨_, _, rfl⟩
      · split at ho
        · cases ho
          exact ⟨_, _, rfl⟩
        · cases ho

section Steps
variable {ending : Except RunError Unit} {steps : List HandlerStep}
  (hx : x.runtime = .handler (some (Handler.ofSteps ending steps)) policy)
include hx

/-- Whatever status a run has, the steps of its handler come to the same on top of it. -/
theorem finished_of_withStatus (hdb : ∀ db, policy.database = some db → db.BlindToJournal)
    (hp : (x.prepare run).on w = (.ok task, u)) {s : Option RunStatus}
    (he : (x.execute (run.withStatus s)).on w = (.ok r, w')) :
    ∃ now, r = (((Handler.ofSteps ending steps (RunContext.ofRun task policy)).on
        (handed task u)).1.1.withStatus s).finished
      ((Handler.ofSteps ending steps (RunContext.ofRun task policy)).on (handed task u)).1.2
      (task.withStatus s) now := by
  have hp' : (x.prepare (run.withStatus s)).on w = (.ok (task.withStatus s), u) := by
    rw [on_prepare_withStatus hx, hp]
    rfl
  obtain ⟨now, rfl⟩ := finished_of_execute hx hp' he
  have hstart : RunContext.ofRun (task.withStatus s) policy =
      (RunContext.ofRun task policy).withStatus s := rfl
  obtain ⟨hsame, -⟩ := RunContext.blind_ofSteps (c := RunContext.ofRun task policy) hdb ending steps
    (handed (task.withStatus s) u) (handed task u) rfl
  rw [hstart, RunContext.on_ofSteps_withStatus, hsame]
  exact ⟨now, rfl⟩

/-- An old status changes nothing exactly where the handler ends with an error if the old status has
one, and logs every output that was left over. Its outputs stay below those that are logged, its
state and its message stay unless the handler has an error. The artifacts are those that are logged,
and what fails fails apart from the status. -/
theorem execute_withStatus (hdb : ∀ db, policy.database = some db → db.BlindToJournal) (run : Run)
    (old : RunStatus) (w : World) :
    (∀ s e, ((x.execute (run.withStatus s)).on w).1 = .error e →
      ((x.prepare run).on w).1 = .error e ∨
        ∃ task result, x.fate (run.withStatus s) w = .refused task result e) ∧
    ∀ a u b v, (x.execute (run.withStatus (some old))).on w = (.ok a, u) →
      (x.execute (run.withStatus none)).on w = (.ok b, v) →
      a.state? = (if old.state = some .error then some .error else b.state?) ∧
      a.error? = b.error?.or old.error ∧
      (∀ key, OrderedMap.find? key a.outputs =
        (OrderedMap.find? key b.outputs).or (OrderedMap.find? key old.outputs)) ∧
      a.outputArtifacts = b.outputArtifacts ∧
      (a.SameOutcome b ↔ (old.state = some .error → b.state? = some .error) ∧
        (old.error.isSome → b.error?.isSome) ∧
        ∀ key, OrderedMap.has key old.outputs → OrderedMap.has key b.outputs) := by
  refine ⟨fun s e he => ?_, fun a u b v ha hb => ?_⟩
  · obtain hp | hr := failed_of_handler hx he
    · rw [on_prepare_withStatus hx] at hp
      rcases hprepared : (x.prepare run).on w with ⟨prepared, u⟩
      rw [hprepared] at hp
      cases prepared with
      | error e' => exact .inl hp
      | ok task => cases hp
    · exact .inr hr
  · obtain ⟨task, u', hp⟩ := prepared_of_withStatus hx ha
    obtain ⟨now, ha⟩ := finished_of_withStatus hx hdb hp ha
    obtain ⟨now', hb⟩ := finished_of_withStatus hx hdb hp hb
    obtain ⟨hstate, herror, houtputs, hartifacts⟩ :=
      RunContext.finished_withStatus _ _ old _ _ now now' ha hb
    exact ⟨hstate, herror, houtputs, hartifacts,
      Run.sameOutcome_iff hstate herror houtputs hartifacts⟩

end Steps

/-- A handler that fails as the earlier run did, and logs again what that one had logged. -/
theorem execute_withStatus_diverged : ∃ (x : Executor) (a b : Run) (u v : World),
    (x.execute { metadata := { uid := some "u" }
                 status := some { state := some .error, error := some "stopped"
                                  outputs := [("loss", .string "high")] } }).on {} = (.ok a, u) ∧
    (x.execute { metadata := { uid := some "u" } }).on {} = (.ok b, v) ∧ a.SameOutcome b := by
  let steps : List HandlerStep := [.logResult "loss" (.string "nan"),
    .logArtifact (.key "model") { targetPath := "s3://models" } true, .setError "diverged"]
  let x : Executor := { runtime := .handler (some (Handler.ofSteps (.ok ()) steps)) {} }
  have hx : x.runtime = .handler (some (Handler.ofSteps (.ok ()) steps)) {} := rfl
  obtain ⟨-, hruns⟩ := execute_withStatus hx (fun _ hdb => by cases hdb)
    { metadata := { uid := some "u" } }
    { state := some .error, error := some "stopped", outputs := [("loss", .string "high")] } {}
  obtain ⟨-, -, -, -, hsame⟩ := hruns _ _ _ _ rfl rfl
  refine ⟨x, _, _, _, _, rfl, rfl, hsame.2 ⟨fun _ => rfl, fun _ => rfl, fun key hkey => ?_⟩⟩
  by_cases hk : key = "loss"
  · rw [hk]
    rfl
  · simp [OrderedMap.has, OrderedMap.find?, Ne.symm hk] at hkey

/-- A handler that does nothing completes its run, unless an earlier one has left an error. -/
theorem execute_leftover_error : ∃ (x : Executor) (a b : Run) (u v : World),
    x.runtime = .handler (some (Handler.ofSteps (.ok ()) [])) {} ∧
    (x.execute { metadata := { uid := some "u" }
                 status := some { state := some .error, error := some "old" } }).on {} = (.ok a, u) ∧
    (x.execute { metadata := { uid := some "u" } }).on {} = (.ok b, v) ∧
    a.state? = some .error ∧ b.state? = some .completed ∧
    a.error? = some "old" ∧ b.error? = none ∧ ¬ a.SameOutcome b :=
  ⟨{ runtime := .handler (some (Handler.ofSteps (.ok ()) [])) {} }, _, _, _, _, rfl, rfl, rfl, rfl,
    rfl, rfl, rfl, fun h => nomatch h.state⟩

end Executor

end Experiment
