import Experiment.Proofs.Course

/-!
# The records of a sweep

Every child that did not stay silent has its record stored once, in its turn, and the parent is
stored last. A child that stayed silent has a row in the table, but no record: nothing was reported,
and its task as it was handed over is all that the row is made from.
-/

namespace Experiment.Sweep
variable {x : Executor} {definition parent : Run} {hyperparams : HyperParams} {w w' : World}

theorem flatMap_stored (hd : x.database.isSome) (cs : List Child) :
    cs.flatMap (Child.stored x) =
      (cs.filter fun c => c.fate ≠ .silent).map fun c => .ofRun c.record := by
  obtain ⟨db, hdb⟩ := Option.isSome_iff_exists.1 hd
  induction cs with
  | nil => rfl
  | cons c cs ih =>
      rw [List.flatMap_cons, ih, List.filter_cons]
      by_cases hc : c.fate = .silent <;> simp [Child.stored, Executor.storing, hc, hdb]

theorem storing_of_database (hd : x.database.isSome) (run : Run) :
    x.storing run = [.ofRun run] := by
  obtain ⟨db, hdb⟩ := Option.isSome_iff_exists.1 hd
  rw [Executor.storing, hdb]

theorem accepting_ledger {r : Runtime} {report : Option Report.Renderer} :
    Executor.Accepting { runtime := r, database := some (.ledger {}), report } := by
  rintro _ ⟨⟩
  exact Database.accepting_ledger

end Experiment.Sweep
