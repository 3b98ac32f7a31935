import Experiment.Proofs.Leaves
import Experiment.Proofs.Logging

/-!
# Declared targets, stored and loaded

What a manager stores into the spec of a run is its output path and its declared targets, one
declaration a key. A manager of that run loads the same path and the same declarations: it finds the
targets that the first one finds, and stores what it has loaded. Declarations that a run repeats are
settled the first time they go through a manager.
-/

namespace Experiment

namespace OrderedMap
variable {α : Type}

theorem keys_extend_of_eraseDups {names : List String} {m : OrderedMap α}
    (h : keys m = names.eraseDups) (extra : OrderedMap α) :
    keys (extend m extra) = (names ++ keys extra).eraseDups := by
  induction extra generalizing m names with
  | nil => rw [show keys ([] : OrderedMap α) = [] from rfl, List.append_nil, ← h, extend,
      List.foldl_nil]
  | cons p rest ih =>
      have hstep := ih (keys_insert_of_eraseDups h p.1 p.2)
      rwa [List.append_assoc] at hstep

end OrderedMap

namespace ArtifactManager
variable {m : ArtifactManager}

/-- The managers that there are: one without a run, one of a run, and what becomes of a manager when
it loads a run, is given an override or an output path, or logs. -/
inductive Reachable : ArtifactManager → Prop
  | unbound (policy : ArtifactPolicy) : Reachable { policy }
  | forRun (run : Run) (policy : ArtifactPolicy) : Reachable (forRun run policy)
  | loadSpec {m : ArtifactManager} (h : Reachable m) (run : Run) : Reachable (m.loadSpec run)
  | addOverride {m : ArtifactManager} (h : Reachable m) (key : String) (path : Option String) :
    Reachable (m.addOverride key path)
  | setOutputPath {m : ArtifactManager} (h : Reachable m) (path : String) :
    Reachable (m.setOutputPath path)
  | log {m : ArtifactManager} (h : Reachable m) (item : LogItem) (o : LogOptions) (w : World) :
    Reachable ((m.log item o).on w).1.1

/-- A manager has one declaration a key. -/
theorem Reachable.nodup_declared (h : m.Reachable) : (OrderedMap.keys m.declared).Nodup := by
  induction h with
  | unbound policy => exact List.nodup_nil
  | forRun run policy => exact OrderedMap.nodup_keys_ofPairs _
  | loadSpec _ run ih => exact OrderedMap.nodup_keys_extend ih _
  | addOverride _ key path ih => exact OrderedMap.nodup_keys_insert key path ih
  | setOutputPath _ path ih => exact ih
  | @log m _ item o w ih =>
      rcases hlog : (m.log item o).on w with ⟨⟨m', r⟩, w'⟩
      obtain ⟨a, -, rfl⟩ := (logs hlog).entered
      exact ih

/-- What a manager stores is what a manager of the run starts from. -/
theorem load_storeSpec (hm : (OrderedMap.keys m.declared).Nodup) (run : Run)
    (policy : ArtifactPolicy) :
    (forRun (m.storeSpec run) policy).declared = m.declared ∧
      (forRun (m.storeSpec run) policy).outputPath = m.outputPath := by
  constructor
  · have hpairs : (m.storeSpec run).spec.outputArtifacts.map (fun d => (d.key, d.path)) =
        m.declared := by
      rw [storeSpec, List.map_map]
      exact List.map_id _
    rw [forRun, loadSpec, hpairs]
    exact OrderedMap.ofPairs_eq_self hm
  · change (if m.outputPath = "" then "" else m.outputPath) = m.outputPath
    split
    next h => exact h.symm
    next => rfl

theorem resolveTarget_congr {m' : ArtifactManager} (hdeclared : m'.declared = m.declared)
    (hpath : m'.outputPath = m.outputPath) (key requested : String) :
    m'.resolveTarget key requested = m.resolveTarget key requested := by
  rw [resolveTarget, resolveTarget, hdeclared, hpath]

theorem spec_storeSpec_congr {m' : ArtifactManager} (hdeclared : m'.declared = m.declared)
    (hpath : m'.outputPath = m.outputPath) (run : Run) :
    (m'.storeSpec (m.storeSpec run)).spec = (m.storeSpec run).spec := by
  simp only [storeSpec, hdeclared, hpath]

/-- Declarations are stored in the order of their keys, each with the path that is found for it. -/
theorem outputArtifacts_storeSpec (hm : (OrderedMap.keys m.declared).Nodup) (run : Run) :
    (m.storeSpec run).spec.outputArtifacts = (OrderedMap.keys m.declared).map fun key =>
      ⟨key, (OrderedMap.find? key m.declared).join⟩ := by
  rw [storeSpec, OrderedMap.keys, List.map_map]
  refine List.map_congr_left fun p hp => ?_
  rw [Function.comp_apply, OrderedMap.find?_of_mem hm hp]
  rfl

theorem find?_declarations (key : String) (declarations : List OutputDeclaration) :
    OrderedMap.find? key (declarations.map fun d => (d.key, d.path)) =
      (declarations.find? fun d => d.key = key).map (·.path) := by
  induction declarations with
  | nil => rfl
  | cons d rest ih =>
      rw [List.map_cons, OrderedMap.find?, ih, List.find?_cons]
      by_cases h : d.key = key <;> simp [h]

/-- The last path that is declared for a key. -/
def lastPath (declarations : List OutputDeclaration) (key : String) : Option String :=
  (declarations.reverse.find? fun d => d.key = key).bind (·.path)

theorem keys_forRun_declared (run : Run) (policy : ArtifactPolicy) :
    OrderedMap.keys (forRun run policy).declared =
      (run.spec.outputArtifacts.map (·.key)).eraseDups := by
  have hnil : OrderedMap.keys ([] : OrderedMap (Option String)) = List.eraseDups [] := rfl
  have hkeys := OrderedMap.keys_extend_of_eraseDups hnil
    (run.spec.outputArtifacts.map fun d => (d.key, d.path))
  rw [List.nil_append, OrderedMap.keys, OrderedMap.keys, List.map_map] at hkeys
  exact hkeys

theorem find?_forRun_declared (run : Run) (policy : ArtifactPolicy) (key : String) :
    (OrderedMap.find? key (forRun run policy).declared).join =
      lastPath run.spec.outputArtifacts key := by
  have hfind := OrderedMap.find?_extend key ([] : OrderedMap (Option String))
    (run.spec.outputArtifacts.map fun d => (d.key, d.path))
  rw [OrderedMap.find?_nil, Option.or_none, ← List.map_reverse, find?_declarations] at hfind
  rw [lastPath, forRun, loadSpec, hfind]
  cases run.spec.outputArtifacts.reverse.find? fun d => d.key = key <;> rfl

/-- However a manager came about: a manager of the run into which it stores finds the same target
for every key and whatever is asked for, and stores the spec that is there already. A run that goes
through a manager keeps one declaration a key, at its first place and with its last path. -/
theorem targets_of_stored (m : ArtifactManager) (hm : m.Reachable) (run : Run)
    (policy : ArtifactPolicy) :
    (∀ key requested, (forRun (m.storeSpec run) policy).resolveTarget key requested =
        m.resolveTarget key requested) ∧
      ((forRun (m.storeSpec run) policy).storeSpec (m.storeSpec run)).spec =
        (m.storeSpec run).spec ∧
      ∀ source : Run, ((forRun source policy).storeSpec run).spec.outputArtifacts =
        ((source.spec.outputArtifacts.map (·.key)).eraseDups).map fun key =>
          ⟨key, lastPath source.spec.outputArtifacts key⟩ := by
  obtain ⟨hdeclared, hpath⟩ := load_storeSpec hm.nodup_declared run policy
  refine ⟨resolveTarget_congr hdeclared hpath, spec_storeSpec_congr hdeclared hpath run, ?_⟩
  intro source
  rw [outputArtifacts_storeSpec (Reachable.forRun source policy).nodup_declared,
    keys_forRun_declared]
  exact List.map_congr_left fun key _ => by rw [find?_forRun_declared]

/-- A run that declares one key twice and another without a path; a third is declared later, and the
output path moves after an artifact was logged. -/
theorem targets_of_stored_repeated :
    let declared : Run := { spec := {
      outputPath := "memory://out"
      outputArtifacts := [⟨"a", some "x"⟩, ⟨"b", none⟩, ⟨"a", some "memory://y"⟩] } }
    let m := (((forRun declared {}).addOverride "c" (some "")).log (.key "a") {}).on {}
      |>.1.1.setOutputPath "new"
    m.Reachable ∧ (forRun (m.storeSpec {}) {}).resolveTarget "a" "z" = "memory://y" ∧
      (forRun (m.storeSpec {}) {}).resolveTarget "b" "" = "new/b" ∧
      (forRun (m.storeSpec {}) {}).resolveTarget "c" "z" = "z" ∧
      ((forRun (m.storeSpec {}) {}).storeSpec (m.storeSpec {})).spec.outputArtifacts =
        [⟨"a", some "memory://y"⟩, ⟨"b", none⟩, ⟨"c", some ""⟩] ∧
      ((forRun declared {}).storeSpec {}).spec.outputArtifacts =
        [⟨"a", some "memory://y"⟩, ⟨"b", none⟩] := by
  intro declared m
  have hm : m.Reachable := .setOutputPath
    (.log (.addOverride (.forRun declared {}) "c" (some "")) (.key "a") {} {}) "new"
  obtain ⟨htargets, hspec, hsettled⟩ := targets_of_stored m hm {} {}
  refine ⟨hm, (htargets "a" "z").trans (by decide), (htargets "b" "").trans (by decide),
    (htargets "c" "z").trans (by decide), ?_, (hsettled declared).trans (by decide)⟩
  exact (congrArg RunSpec.outputArtifacts hspec).trans (by decide)

end ArtifactManager

end Experiment
