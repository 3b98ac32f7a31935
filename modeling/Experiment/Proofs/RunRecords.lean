import Experiment.Proofs.ByteOrder
import Experiment.Proofs.Directory
import Experiment.Proofs.Identity
import Experiment.Proofs.RoundTrip

/-!
# A directory keeps runs as a finite map

Whatever calls a directory has accepted, the run that is read under a project, a uid and an iteration
is the one that was stored last under exactly these: different runs have different places, those of
artifacts lie apart, and a run that came from a JSON text is read again from the text that is
written of it.
-/

namespace Experiment

namespace DatabaseCall

/-- What is kept after a call, by project, uid and iteration. -/
def keep (kept : String × String × Nat → Option Run) (c : DatabaseCall) :
    String × String × Nat → Option Run :=
  match c with
  | .run uid project _ value => fun key =>
    if key = (project, uid, value.metadata.iteration) then some value else kept key
  | _ => kept

/-- A run comes from a JSON text and is stored under plain names. -/
def Proper : DatabaseCall → Prop
  | .run uid project _ value => (Database.Plain project ∧ project ≠ "") ∧
    (Database.Plain uid ∧ uid ≠ "") ∧ (∃ text, Run.parse? text = some value) ∧
    value.encode.FloatsReadBack
  | _ => True

theorem keep_run (kept : String × String × Nat → Option Run) (uid project : String) (commit : Bool)
    (value : Run) (key : String × String × Nat) :
    (run uid project commit value).keep kept key =
      if key = (project, uid, value.metadata.iteration) then some value else kept key := rfl

theorem keep_of_key_ne {c : DatabaseCall} {key : String × String × Nat}
    (kept : String × String × Nat → Option Run) (h : c.key? ≠ some key) :
    c.keep kept key = kept key := by
  cases c with
  | run uid project commit value =>
      rw [keep_run, if_neg fun hk => h (congrArg some hk.symm)]
  | connect _ | artifact _ _ _ _ => rfl

end DatabaseCall

namespace Database
variable {root : FilePath} {w w' : World} {project uid : String} {iteration : Nat}

def runBytes (run : Run) : ByteArray :=
  run.encode.pretty.toUTF8

theorem readRun_of_holds {t : FileTree} {kept : Option Run}
    (h : t.Holds (runPath root project uid iteration) (kept.map runBytes))
    (hkept : ∀ run, kept = some run → Run.parse? run.encode.pretty = some run) :
    readRun t root project uid iteration = kept := by
  unfold readRun FileTree.readText
  cases kept with
  | none =>
      cases hr : t.read (runPath root project uid iteration) with
      | error e => rfl
      | ok b => exact absurd ((h.read_eq b).1 hr) (by simp)
  | some run =>
      have hread : t.read (runPath root project uid iteration) = .ok (runBytes run) := h
      rw [hread]
      dsimp only
      rw [runBytes, Text.fromUTF8?_toUTF8]
      exact hkept run rfl

theorem held_runPath {c : DatabaseCall} (hc : c.Proper) (hp : Plain project ∧ project ≠ "")
    (hu : Plain uid) (kept : String × String × Nat → Option Run) :
    c.held root (runPath root project uid iteration)
      ((kept (project, uid, iteration)).map runBytes) =
      (c.keep kept (project, uid, iteration)).map runBytes := by
  cases c with
  | connect secrets => rfl
  | artifact key tag project' value =>
      rw [DatabaseCall.held_of_write ((DatabaseCall.write?_artifact ..).2 ⟨rfl, rfl⟩), if_neg]
      · rfl
      · intro hpath
        exact place_artifactPath_ne {} root project' key tag project uid iteration
          (congrArg (FileTree.place {}) hpath)
  | run uid' project' commit value =>
      obtain ⟨hp', hu', -⟩ := hc
      rw [DatabaseCall.held_of_write ((DatabaseCall.write?_run ..).2 ⟨rfl, rfl⟩),
        DatabaseCall.keep_run]
      by_cases hkey : (project, uid, iteration) = (project', uid', value.metadata.iteration)
      · rw [if_pos hkey]
        cases hkey
        rw [if_pos rfl]
        rfl
      · rw [if_neg hkey, if_neg]
        intro hpath
        have hplace := congrArg (FileTree.place {}) hpath
        obtain ⟨rfl, rfl, rfl⟩ := place_runPath_inj hp' hp hu'.1 hu hplace
        exact hkey rfl

theorem path_of_place {t : FileTree} {c : DatabaseCall} (hc : c.Proper)
    (hp : Plain project ∧ project ≠ "") (hu : Plain uid) {q : FilePath} {b : ByteArray}
    (hwrite : c.write? root = some (q, b))
    (hplace : t.place q = t.place (runPath root project uid iteration)) :
    q = runPath root project uid iteration := by
  cases c with
  | connect secrets => cases hwrite
  | artifact key tag project' value =>
      obtain ⟨rfl, -⟩ := (DatabaseCall.write?_artifact ..).1 hwrite
      exact absurd hplace (place_artifactPath_ne t root project' key tag project uid iteration)
  | run uid' project' commit value =>
      obtain ⟨hp', hu', -⟩ := hc
      obtain ⟨rfl, -⟩ := (DatabaseCall.write?_run ..).1 hwrite
      obtain ⟨rfl, rfl, rfl⟩ := place_runPath_inj hp' hp hu'.1 hu hplace
      rfl

theorem parse?_of_kept {calls : List DatabaseCall} (hc : ∀ c ∈ calls, c.Proper)
    (kept : String × String × Nat → Option Run)
    (hkept : ∀ key run, kept key = some run → Run.parse? run.encode.pretty = some run) :
    ∀ key run, calls.foldl DatabaseCall.keep kept key = some run →
      Run.parse? run.encode.pretty = some run := by
  induction calls generalizing kept with
  | nil => exact hkept
  | cons c calls ih =>
      obtain ⟨hhead, htail⟩ := List.forall_mem_cons.1 hc
      refine ih htail (c.keep kept) fun key run h => ?_
      cases c with
      | connect _ | artifact _ _ _ _ => exact hkept key run h
      | run uid project commit value =>
          obtain ⟨-, -, ⟨text, htext⟩, hfloats⟩ := hhead
          rw [DatabaseCall.keep_run] at h
          split at h
          · cases h
            exact Wire.parse?_pretty (w := .run) htext hfloats
          · exact hkept key run h

theorem holds_runs {calls : List DatabaseCall} (hfresh : w.files.Fresh root)
    (hc : ∀ c ∈ calls, c.Proper) (h : ((directory root).performAll calls).on w = (.ok (), w'))
    (hp : Plain project ∧ project ≠ "") (hu : Plain uid) (iteration : Nat) :
    w'.files.Holds (runPath root project uid iteration)
      ((calls.foldl DatabaseCall.keep (fun _ => none) (project, uid, iteration)).map runBytes) := by
  have hempty : w.files.Holds (runPath root project uid iteration) none :=
    hfresh.holds (place_runPath w.files root project uid iteration) (by simp)
  rw [← DatabaseCall.foldl_held fun c hmem => held_runPath (hc c hmem) hp hu]
  exact holds_performAll (fun c hmem q b => path_of_place (hc c hmem) hp hu) hempty h

/-- What is read is what was stored last under exactly this project, uid and iteration, and a further
call does not change it unless it stores a run under them. -/
theorem readRun_of_performAll (root : FilePath) (calls : List DatabaseCall) (w w' : World)
    (hfresh : w.files.Fresh root) (hc : ∀ c ∈ calls, c.Proper)
    (h : ((directory root).performAll calls).on w = (.ok (), w'))
    (project uid : String) (iteration : Nat) (hp : Plain project ∧ project ≠ "")
    (hu : Plain uid ∧ uid ≠ "") :
    readRun w'.files root project uid iteration =
      calls.foldl DatabaseCall.keep (fun _ => none) (project, uid, iteration) ∧
    ∀ c v, c.Proper → c.key? ≠ some (project, uid, iteration) →
      ((directory root).perform c).on w' = (.ok (), v) →
      readRun v.files root project uid iteration = readRun w'.files root project uid iteration := by
  have hholds := holds_runs hfresh hc h hp hu.1 iteration
  have hkept := parse?_of_kept hc (fun _ => none) (fun _ _ h => by cases h)
    (project, uid, iteration)
  refine ⟨readRun_of_holds hholds hkept, fun c v hproper hkey hv => ?_⟩
  have hnext := holds_perform (fun q b => path_of_place hproper hp hu.1) hholds hv
  rw [held_runPath hproper hp hu.1, DatabaseCall.keep_of_key_ne _ hkey] at hnext
  rw [readRun_of_holds hnext hkept, readRun_of_holds hholds hkept]

/-- The uid `u-1` is not the iteration 1 of the uid `u`. -/
theorem readRun_of_performAll_hyphen :
    ∃ w', ((directory "db").performAll [.run "u-1" "demo" true {}, .artifact "u" "" "demo" {}]).on
        {} = (.ok (), w') ∧
      readRun w'.files "db" "demo" "u-1" 0 = some {} ∧
      readRun w'.files "db" "demo" "u" 1 = none := by
  have hok : (((directory "db").performAll
      [.run "u-1" "demo" true {}, .artifact "u" "" "demo" {}]).on {}).1.isOk = true := by
    decide +kernel
  obtain ⟨w', h⟩ := exists_of_isOk hok
  have hdemo : Plain "demo" ∧ "demo" ≠ "" := by decide
  have huid : Plain "u-1" ∧ "u-1" ≠ "" := by decide
  have hu : Plain "u" ∧ "u" ≠ "" := by decide
  have hparse : Run.parse? "\x7b\x7d" = some {} := by decide +kernel
  have hnumbers : ({} : Run).encode.numbers = [.int 0] := by decide +kernel
  have hfloats : ({} : Run).encode.FloatsReadBack := fun bits hbits => by
    rw [hnumbers] at hbits
    simp at hbits
  have hproper : ∀ c ∈ [DatabaseCall.run "u-1" "demo" true {}, .artifact "u" "" "demo" {}],
      c.Proper := by
    intro c hc
    obtain rfl | rfl : c = .run "u-1" "demo" true {} ∨ c = .artifact "u" "" "demo" {} := by
      simpa using hc
    · exact ⟨hdemo, huid, ⟨_, hparse⟩, hfloats⟩
    · trivial
  refine ⟨w', h, ?_, ?_⟩
  · exact (readRun_of_performAll "db" _ {} w' (FileTree.fresh_empty "db") hproper h
      "demo" "u-1" 0 hdemo huid).1
  · exact (readRun_of_performAll "db" _ {} w' (FileTree.fresh_empty "db") hproper h
      "demo" "u" 1 hdemo hu).1

end Database

end Experiment
