import Experiment.Executor

/-!
# Preparing a run

Preparing fills in a blank kind and a missing uid, and changes nothing else. A run that has been
prepared can be prepared again as it is, unless a kind was filled in that has blanks around it: the
blanks are left out of what a run asks for, but not out of what the runtime is called.
-/

namespace Experiment

namespace Executor
variable {x : Executor} {run parent task : Run} {w v : World} {e : RunError}

/-- The kind of a run once it is prepared. -/
def kindFor (x : Executor) (run : Run) : String :=
  if Text.trim run.spec.runtime.kind = "" then x.runtime.kind else run.spec.runtime.kind

def filled (x : Executor) (run : Run) : Run :=
  { run with spec := { run.spec with runtime := { run.spec.runtime with kind := x.kindFor run } } }

@[simp] theorem metadata_filled (x : Executor) (run : Run) :
    (x.filled run).metadata = run.metadata := by
  simp only [filled]

@[simp] theorem uid_filled (x : Executor) (run : Run) : (x.filled run).uid = run.uid := by
  simp only [Run.uid, metadata_filled]

/-- The kind of the runtime is accepted where it has been filled in. -/
def KindFits (x : Executor) : Prop :=
  Text.trim x.runtime.kind = "" ∨ Text.trim x.runtime.kind = x.runtime.kind

theorem withKind_of_blank (h : Text.trim run.spec.runtime.kind = "") :
    x.withKind run = .ok (x.filled run) := by
  simp only [withKind, filled, kindFor, if_pos h]

theorem withKind_of_asked (hn : Text.trim run.spec.runtime.kind ≠ "")
    (h : Text.trim run.spec.runtime.kind = x.runtime.kind) : x.withKind run = .ok run := by
  simp only [withKind, if_neg hn, if_pos h]

theorem withKind_of_other (hn : Text.trim run.spec.runtime.kind ≠ "")
    (h : Text.trim run.spec.runtime.kind ≠ x.runtime.kind) :
    x.withKind run = .error (.configuration (.runtimeMismatch run.metadata.name
      (Text.trim run.spec.runtime.kind) x.runtime.kind)) := by
  simp only [withKind, if_neg hn, if_neg h]

theorem filled_eq_self (h : x.kindFor run = run.spec.runtime.kind) : x.filled run = run := by
  simp only [filled, h]

theorem withKind_eq_ok (h : x.withKind run = .ok task) :
    task = x.filled run ∧
      (Text.trim run.spec.runtime.kind ≠ "" → Text.trim run.spec.runtime.kind = x.runtime.kind) := by
  by_cases hk : Text.trim run.spec.runtime.kind = ""
  · rw [withKind_of_blank hk] at h
    cases h
    exact ⟨rfl, fun hn => absurd hk hn⟩
  · by_cases he : Text.trim run.spec.runtime.kind = x.runtime.kind
    · rw [withKind_of_asked hk he] at h
      cases h
      exact ⟨(filled_eq_self (if_neg hk)).symm, fun _ => he⟩
    · rw [withKind_of_other hk he] at h
      cases h

theorem check_eq_ok : x.check run = (task, .ok ()) ↔
    x.withKind run = .ok task ∧ x.runtime.validate task = .ok () := by
  unfold check
  cases hk : x.withKind run with
  | error e => simp
  | ok run' =>
      dsimp only
      cases hv : x.runtime.validate run' with
      | error e =>
          simp only [Prod.mk.injEq, reduceCtorEq, and_false, Except.ok.injEq, false_iff, not_and]
          rintro rfl
          simp [hv]
      | ok _ =>
          simp only [Prod.mk.injEq, and_true, Except.ok.injEq]
          constructor
          · rintro rfl
            exact ⟨rfl, hv⟩
          · exact And.left

theorem on_prepare_of_error (h : (x.check run).2 = .error e) (w : World) :
    (x.prepare run).on w = (.error e, w) := by
  unfold prepare
  cases hc : x.check run with
  | mk run' r =>
      rw [hc] at h
      cases h
      rfl

theorem on_prepare_of_ok (h : x.check run = (task, .ok ())) (w : World) :
    (x.prepare run).on w = (.ok (task.assignUid.on w).1, (task.assignUid.on w).2) := by
  unfold prepare
  rw [h]
  rfl

/-- The run with what was missing of kind and uid. -/
structure Prepares (x : Executor) (run task : Run) : Prop where
  metadata : task.metadata = { run.metadata with uid := task.metadata.uid }
  spec : task.spec = (x.filled run).spec
  status : task.status = run.status
  uid : task.uid ≠ ""
  metadata_of_uid : run.uid ≠ "" → task.metadata = run.metadata

theorem prepare_eq_ok (h : (x.prepare run).on w = (.ok task, v)) :
    x.check run = (x.filled run, .ok ()) ∧ x.Prepares run task ∧ ∃ issued, v = { w with issued } := by
  cases hc : x.check run with
  | mk run' r =>
      cases r with
      | error e =>
          rw [on_prepare_of_error (by rw [hc]) w] at h
          cases h
      | ok u =>
          cases u
          rw [on_prepare_of_ok hc w] at h
          obtain ⟨rfl, -⟩ := withKind_eq_ok (check_eq_ok.1 hc).1
          obtain ⟨uid, issued, ha, hn, hu⟩ := Run.on_assignUid (x.filled run) w
          rw [ha] at h
          rw [uid_filled, metadata_filled] at hu
          simp only [Prod.mk.injEq, Except.ok.injEq] at h
          obtain ⟨rfl, rfl⟩ := h
          refine ⟨rfl, ⟨?_, rfl, rfl, hn, fun hr => ?_⟩, issued, rfl⟩
          · simp only [metadata_filled]
          · simp only [metadata_filled, hu hr]

theorem prepares_of_prepare (h : (x.prepare run).on w = (.ok task, v)) : x.Prepares run task :=
  (prepare_eq_ok h).2.1

theorem journal_of_prepare (h : (x.prepare run).on w = (.ok task, v)) :
    v.toJournal = w.toJournal := by
  obtain ⟨-, -, issued, rfl⟩ := prepare_eq_ok h
  rfl

theorem prepare_eq_error (h : (x.prepare run).on w = (.error e, v)) :
    (x.check run).2 = .error e ∧ v = w := by
  cases hc : x.check run with
  | mk run' r =>
      cases r with
      | error e' =>
          rw [on_prepare_of_error (by rw [hc]) w] at h
          cases h
          exact ⟨rfl, rfl⟩
      | ok u =>
          cases u
          rw [on_prepare_of_ok hc w] at h
          cases h

/-- A run that passes the check as it is and has its uid is prepared. -/
theorem on_prepare_of_prepared (h : x.check task = (task, .ok ())) (hu : task.uid ≠ "") (w : World) :
    (x.prepare task).on w = (.ok task, w) := by
  rw [on_prepare_of_ok h, Run.on_assignUid_of_uid hu]

theorem validate_filled (h : (x.prepare run).on w = (.ok task, v)) :
    x.runtime.validate (x.filled run) = .ok () :=
  (check_eq_ok.1 (prepare_eq_ok h).1).2

theorem validate_of_prepared (h : (x.prepare task).on w = (.ok task, v)) :
    x.runtime.validate task = .ok () := by
  have hs : (x.filled task).spec = task.spec := (prepares_of_prepare h).spec.symm
  have hf : x.filled task = task := by
    change { task with spec := (x.filled task).spec } = task
    rw [hs]
  rw [← hf]
  exact validate_filled h

section Tasks

variable (h : (x.prepare run).on w = (.ok parent, v))
include h

theorem runtime_of_prepare :
    parent.spec.runtime = { run.spec.runtime with kind := x.kindFor run } := by
  rw [(prepares_of_prepare h).spec, filled]

/-- What has been prepared has its kind filled in for good, if the kind of the runtime fits. -/
theorem withKind_of_prepare (hk : Text.trim run.spec.runtime.kind ≠ "" ∨ x.KindFits)
    (ht : task.spec.runtime = parent.spec.runtime) : x.withKind task = .ok task := by
  have hkind : task.spec.runtime.kind = x.kindFor run := by
    rw [ht, runtime_of_prepare h]
  have hasked := (withKind_eq_ok (check_eq_ok.1 (prepare_eq_ok h).1).1).2
  by_cases hb : Text.trim run.spec.runtime.kind = ""
  · have hf : task.spec.runtime.kind = x.runtime.kind := hkind.trans (if_pos hb)
    have hfits : x.KindFits := hk.resolve_left fun hn => hn hb
    by_cases hn : Text.trim task.spec.runtime.kind = ""
    · have hsame : x.kindFor task = task.spec.runtime.kind := (if_pos hn).trans hf.symm
      rw [withKind_of_blank hn, filled_eq_self hsame]
    · have he : Text.trim task.spec.runtime.kind = x.runtime.kind := by
        rw [hf] at hn ⊢
        exact hfits.resolve_left hn
      exact withKind_of_asked hn he
  · have hf : task.spec.runtime.kind = run.spec.runtime.kind := hkind.trans (if_neg hb)
    have hn : Text.trim task.spec.runtime.kind ≠ "" := by
      rw [hf]
      exact hb
    have he : Text.trim task.spec.runtime.kind = x.runtime.kind := by
      rw [hf]
      exact hasked hb
    exact withKind_of_asked hn he

/-- A filled in kind that does not fit is refused as that of another runtime. -/
theorem withKind_of_prepare_unfit (hb : Text.trim run.spec.runtime.kind = "") (hk : ¬ x.KindFits)
    (ht : task.spec.runtime = parent.spec.runtime) :
    x.withKind task = .error (.configuration
      (.runtimeMismatch task.metadata.name (Text.trim x.runtime.kind) x.runtime.kind)) := by
  have hkind : task.spec.runtime.kind = x.runtime.kind := by
    rw [ht, runtime_of_prepare h, kindFor, if_pos hb]
  have htrim : Text.trim task.spec.runtime.kind = Text.trim x.runtime.kind := by
    rw [hkind]
  obtain ⟨hn, he⟩ := not_or.1 hk
  rw [← htrim] at hn he ⊢
  exact withKind_of_other hn he

end Tasks

end Executor

end Experiment
