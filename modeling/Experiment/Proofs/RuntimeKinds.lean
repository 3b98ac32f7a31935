import Experiment.Proofs.Confinement
import Experiment.Proofs.Preparation
import Experiment.Runtime.Registry
import Experiment.Sweep.Task
import Mathlib.Data.List.Induction

/-!
# The kind of a run and of its runtime

A registry keeps each runtime under its own kind, so what it finds for a run is called what the run
asks for, blanks aside, or `local` if it asks for nothing. An executor over that runtime therefore
never finds another kind, neither in the run nor in the tasks that are made of it once it is prepared;
whether they are prepared is for the runtime to say.
-/

namespace Experiment

namespace RunError

/-- The kind that was asked for is not that of the runtime. -/
def isMismatch : RunError → Bool
  | .configuration (.runtimeMismatch _ _ _) => true
  | _ => false

theorem isMismatch_ofRuntime (cause : RuntimeError) : (ofRuntime cause).isMismatch = false := by
  cases cause <;> rfl

end RunError

namespace RuntimeRegistry
variable {runtimes : List Runtime} {runtime : Runtime} {run : Run} {kind : String}

/-- What comes of registering runtimes one after the other. -/
def ofRuntimes (runtimes : List Runtime) : RuntimeRegistry :=
  runtimes.foldl register {}

theorem find?_register (r : RuntimeRegistry) (runtime : Runtime) (kind : String) :
    (r.register runtime).find? kind =
      if runtime.kind = kind then some runtime else r.find? kind := by
  unfold register find?
  by_cases h : runtime.kind = kind
  · rw [if_pos h, ← h]
    apply OrderedMap.find?_insert_self
  · rw [if_neg h]
    apply OrderedMap.find?_insert_of_ne
    exact Ne.symm h

/-- The last runtime of a kind is the one that is found. -/
theorem find?_ofRuntimes (runtimes : List Runtime) (kind : String) :
    (ofRuntimes runtimes).find? kind = runtimes.reverse.find? fun r => r.kind = kind := by
  induction runtimes using List.reverseRecOn with
  | nil => rfl
  | append_singleton runtimes runtime ih =>
      have hlast : ofRuntimes (runtimes ++ [runtime]) = (ofRuntimes runtimes).register runtime :=
        List.foldl_append
      rw [hlast, find?_register, ih, List.reverse_append, List.reverse_singleton,
        List.singleton_append, List.find?_cons]
      by_cases h : runtime.kind = kind <;> simp [h]

theorem find?_ofRuntimes_eq_some : (ofRuntimes runtimes).find? kind = some runtime ↔
    ∃ before after, runtimes = before ++ runtime :: after ∧ runtime.kind = kind ∧
      ∀ r ∈ after, r.kind ≠ kind := by
  rw [find?_ofRuntimes, List.find?_eq_some_iff_append]
  constructor
  · rintro ⟨hkind, before, after, hsplit, hbefore⟩
    refine ⟨after.reverse, before.reverse, ?_, by simpa using hkind, ?_⟩
    · rw [← List.reverse_reverse runtimes, hsplit]
      simp
    · intro r hr
      simpa using hbefore r (List.mem_reverse.1 hr)
  · rintro ⟨before, after, rfl, hkind, hafter⟩
    refine ⟨by simpa using hkind, after.reverse, before.reverse, by simp, ?_⟩
    intro r hr
    simpa using hafter r (List.mem_reverse.1 hr)

theorem forRun_eq_ok {r : RuntimeRegistry} :
    r.forRun run = .ok runtime ↔ r.find? (kindOf run) = some runtime := by
  unfold forRun resolve
  cases r.find? (kindOf run) <;> simp

end RuntimeRegistry

namespace Executor
variable {x : Executor} {run parent task : Run} {w v : World}

/-- Preparing a run fails exactly where its runtime refuses it, and not for its kind. -/
structure Agrees (x : Executor) (run : Run) : Prop where
  refused : ∀ w e v, (x.prepare run).on w = (.error e, v) ↔
    v = w ∧ ∃ cause, x.runtime.validate (x.filled run) = .error cause ∧ e = .ofRuntime cause
  not_mismatch : ∀ w e v, (x.prepare run).on w = (.error e, v) → e.isMismatch = false

theorem agrees_of_withKind (h : x.withKind run = .ok (x.filled run)) : x.Agrees run := by
  have hrefused : ∀ w e v, (x.prepare run).on w = (.error e, v) ↔ v = w ∧
      ∃ cause, x.runtime.validate (x.filled run) = .error cause ∧ e = .ofRuntime cause := by
    intro w e v
    cases hv : x.runtime.validate (x.filled run) with
    | error cause =>
        have hcheck : x.check run = (x.filled run, .error (.ofRuntime cause)) := by
          simp only [check, h, hv]
        rw [on_prepare_of_error (congrArg Prod.snd hcheck)]
        constructor
        · rintro ⟨⟩
          exact ⟨rfl, cause, rfl, rfl⟩
        · rintro ⟨rfl, _, ⟨⟩, rfl⟩
          rfl
    | ok u =>
        rw [on_prepare_of_ok (check_eq_ok.2 ⟨h, hv⟩)]
        constructor
        · rintro ⟨⟩
        · rintro ⟨-, _, ⟨⟩, -⟩
  refine ⟨hrefused, ?_⟩
  intro w e v he
  obtain ⟨-, cause, -, rfl⟩ := (hrefused w e v).1 he
  exact RunError.isMismatch_ofRuntime cause

section Kind

variable (h : x.runtime.kind = RuntimeRegistry.kindOf run)
include h

/-- The kind that was looked up is that of the runtime: it is either asked for or filled in. -/
theorem withKind_of_kindOf : x.withKind run = .ok (x.filled run) := by
  unfold RuntimeRegistry.kindOf at h
  by_cases hb : Text.trim run.spec.runtime.kind = ""
  · exact withKind_of_blank hb
  · rw [if_neg hb] at h
    rw [withKind_of_asked hb h.symm, filled_eq_self (if_neg hb)]

theorem fits_of_kindOf : Text.trim run.spec.runtime.kind ≠ "" ∨ x.KindFits := by
  unfold RuntimeRegistry.kindOf at h
  by_cases hb : Text.trim run.spec.runtime.kind = ""
  · rw [if_pos hb] at h
    apply Or.inr
    unfold KindFits
    rw [h]
    decide
  · exact Or.inl hb

end Kind

end Executor

theorem TaskCursor.shared_of_task? {c : TaskCursor} {i : Nat} {task : Run}
    (h : c.task? i = some task) :
    task.spec.runtime = c.base.spec.runtime ∧ task.uid = c.base.uid := by
  obtain ⟨point, -, rfl⟩ := Option.map_eq_some_iff.1 h
  exact ⟨rfl, rfl⟩

namespace RuntimeRegistry

/-- What a registry finds for a run is the last runtime that was registered under the kind the run
asks for, or as `local` if it asks for none. An executor over it refuses the run only where the
runtime does, and so with every task that is made of the prepared run, with hyperparameters of its own
or others; a task that is not refused is prepared as it is, and the runtimes of this library refuse
none. -/
theorem agrees_of_forRun (runtimes : List Runtime) (run : Run) (x : Executor)
    (h : (ofRuntimes runtimes).forRun run = .ok x.runtime) :
    (∃ before after, runtimes = before ++ x.runtime :: after ∧
      x.runtime.kind = (if Text.trim run.spec.runtime.kind = "" then "local"
        else Text.trim run.spec.runtime.kind) ∧
      ∀ r ∈ after, r.kind ≠ x.runtime.kind) ∧
    x.Agrees run ∧
    ∀ w parent v, (x.prepare run).on w = (.ok parent, v) → ∀ hyperparams grid i task,
      TaskCursor.task? { base := { parent with spec := { parent.spec with hyperparams } }, grid } i =
        some task →
      x.Agrees task ∧
      (x.runtime.validate task = .ok () → ∀ u, (x.prepare task).on u = (.ok task, u)) ∧
      (x.runtime.Builtin → x.runtime.validate task = .ok ()) := by
  obtain ⟨before, after, hsplit, hkind, hafter⟩ := find?_ofRuntimes_eq_some.1 (forRun_eq_ok.1 h)
  refine ⟨⟨before, after, hsplit, hkind, hkind ▸ hafter⟩, ?_, ?_⟩
  · exact Executor.agrees_of_withKind (Executor.withKind_of_kindOf hkind)
  · intro w parent v hp hyperparams grid i task htask
    obtain ⟨hruntime, huid⟩ := TaskCursor.shared_of_task? htask
    have hprepares := Executor.prepares_of_prepare hp
    have hwith : x.withKind task = .ok task :=
      Executor.withKind_of_prepare hp (Executor.fits_of_kindOf hkind) hruntime
    have hfilled : task = x.filled task := (Executor.withKind_eq_ok hwith).1
    refine ⟨?_, ?_, ?_⟩
    · apply Executor.agrees_of_withKind
      rw [← hfilled]
      exact hwith
    · intro hvalid
      apply Executor.on_prepare_of_prepared (Executor.check_eq_ok.2 ⟨hwith, hvalid⟩)
      rw [huid]
      exact hprepares.uid
    · intro hbuiltin
      rw [← Executor.validate_filled hp]
      apply hbuiltin.validate_congr
      rw [hruntime, hprepares.spec]

/-- Of two local runtimes the later one is found, and one whose kind has a blank is not. -/
theorem agrees_of_forRun_padded :
    let x : Executor := { runtime := Runtime.process }
    let run : Run :=
      { metadata := { uid := some "u" }
        spec := { runtime := { kind := "\t local\n", command := "true" } } }
    (ofRuntimes [Runtime.echo "local", Runtime.process, Runtime.echo "local "]).forRun run =
        .ok x.runtime ∧
      (x.prepare run).on {} = (.ok run, {}) ∧
      ∃ grid task, Grid.expandGrid {} [("p", [.null, .bool true])] = .ok grid ∧
        TaskCursor.task? ⟨run, grid, 0⟩ 1 = some task ∧
        ∀ u, (x.prepare task).on u = (.ok task, u) := by
  intro x run
  have hkind : kindOf run = "local" := by decide
  have h : (ofRuntimes [Runtime.echo "local", Runtime.process, Runtime.echo "local "]).forRun run =
      .ok x.runtime := by
    rw [forRun_eq_ok, hkind, find?_ofRuntimes_eq_some]
    exact ⟨[Runtime.echo "local"], [Runtime.echo "local "], rfl, rfl, by decide⟩
  have hcheck : x.check run = (run, .ok ()) :=
    Executor.check_eq_ok.2 ⟨Executor.withKind_of_asked (by decide) (by decide), if_neg (by decide)⟩
  have hp : (x.prepare run).on {} = (.ok run, {}) :=
    Executor.on_prepare_of_prepared hcheck (by decide) {}
  obtain ⟨-, -, htasks⟩ := agrees_of_forRun _ run x h
  obtain ⟨-, hprepared, hvalid⟩ := htasks {} run {} hp [] ⟨[("p", [.null, .bool true])], 2⟩ 1 _ rfl
  exact ⟨h, hp, _, _, rfl, rfl, hprepared (hvalid Runtime.Builtin.process)⟩

end RuntimeRegistry

end Experiment
