import Experiment.Proofs.RecordNames

/-!
# What a directory does when it is called

A call that a directory accepts makes directories and, if it stores something, writes one record. So
a path under which nothing else is filed holds what was written to it last.
-/

namespace Experiment

namespace DatabaseCall

/-- The record that a directory at `root` writes for a call. -/
def write? (root : FilePath) : DatabaseCall → Option (FilePath × ByteArray)
  | .connect _ => none
  | .run uid project _ value =>
    some (Database.runPath root project uid value.metadata.iteration, value.encode.pretty.toUTF8)
  | .artifact key tag project value =>
    some (Database.artifactPath root project key tag, value.encode.pretty.toUTF8)

/-- What the file at a path holds after a call. -/
def held (root p : FilePath) (kept : Option ByteArray) (c : DatabaseCall) : Option ByteArray :=
  match c.write? root with
  | some (q, b) => if q = p then some b else kept
  | none => kept

section Writes
variable {root p q : FilePath} {b : ByteArray}

theorem write?_run (uid project : String) (commit : Bool) (value : Run) :
    (run uid project commit value).write? root = some (q, b) ↔
      Database.runPath root project uid value.metadata.iteration = q ∧
        value.encode.pretty.toUTF8 = b := by
  rw [write?, Option.some.injEq, Prod.mk.injEq]

theorem write?_artifact (key tag project : String) (value : ArtifactSummary) :
    (artifact key tag project value).write? root = some (q, b) ↔
      Database.artifactPath root project key tag = q ∧ value.encode.pretty.toUTF8 = b := by
  rw [write?, Option.some.injEq, Prod.mk.injEq]

theorem held_of_write {c : DatabaseCall} (h : c.write? root = some (q, b))
    (kept : Option ByteArray) : c.held root p kept = if q = p then some b else kept := by
  rw [held, h]

/-- A path holds what a map keeps for it, if each call acts on both alike. -/
theorem foldl_held {α β : Type} {bytes : β → ByteArray} {a : α} {calls : List DatabaseCall}
    {keep : (α → Option β) → DatabaseCall → α → Option β}
    (h : ∀ c ∈ calls, ∀ kept, c.held root p ((kept a).map bytes) = (keep kept c a).map bytes)
    (kept : α → Option β) :
    calls.foldl (held root p) ((kept a).map bytes) = (calls.foldl keep kept a).map bytes := by
  induction calls generalizing kept with
  | nil => rfl
  | cons c calls ih =>
      obtain ⟨hhead, htail⟩ := List.forall_mem_cons.1 h
      rw [List.foldl_cons, List.foldl_cons, hhead, ih htail]

end Writes

end DatabaseCall

namespace FileTree

/-- Nothing lies below the place of a path. -/
def Fresh (t : FileTree) (root : FilePath) : Prop :=
  ∀ names, names ≠ [] → t.entry? (t.place root ++ names) = none

theorem Fresh.holds {t : FileTree} {root p : FilePath} (h : t.Fresh root) {names : List String}
    (hp : t.place p = t.place root ++ names) (hn : names ≠ []) : t.Holds p none := by
  intro b hb
  rw [hp, h names hn] at hb
  cases hb

theorem fresh_empty (root : FilePath) : Fresh {} root := fun names hn => by
  rw [ entry?, if_neg (by simp [hn])]
  rfl

end FileTree

namespace Database
variable {root p q : FilePath} {w w' : World} {kept : Option ByteArray}

def perform (db : Database) : DatabaseCall → Attempt DatabaseError Unit
  | .connect secrets => db.connect secrets
  | .run uid project commit value => db.storeRun value uid project commit
  | .artifact key tag project value => db.storeArtifact key value tag project

/-- One call after the other, as long as they are accepted. -/
def performAll (db : Database) : List DatabaseCall → Attempt DatabaseError Unit
  | [] => pure ()
  | c :: cs => do
    db.perform c
    db.performAll cs

theorem exists_of_isOk {x : Attempt DatabaseError Unit} (h : (x.on w).1.isOk = true) :
    ∃ w', x.on w = (.ok (), w') := by
  cases hx : x.on w with
  | mk r w' =>
      rw [hx] at h
      cases r with
      | ok _ => exact ⟨w', rfl⟩
      | error e => cases h

theorem files_of_createDirectories (h : (World.createDirectories p).on w = (.ok (), w')) :
    w.files.Grows w'.files := by
  have hg := FileTree.grows_createDirectories w.files p
  unfold World.createDirectories at h
  rw [Attempt.on_get_bind] at h
  cases hc : w.files.createDirectories p with
  | mk files refused =>
      rw [hc] at h hg
      cases refused with
      | none =>
          cases h
          exact hg
      | some e => cases h

theorem files_of_changeFiles {change : FileTree → Except OsError FileTree}
    (h : (World.changeFiles change).on w = (.ok (), w')) : change w.files = .ok w'.files := by
  unfold World.changeFiles at h
  rw [Attempt.on_get_bind] at h
  cases hc : change w.files with
  | error e =>
      rw [hc] at h
      cases h
  | ok files =>
      rw [hc] at h
      cases h
      rfl

theorem files_of_writeFile {b : ByteArray} (h : (World.writeFile p b).on w = (.ok (), w')) :
    w.files.write p b = .ok w'.files :=
  files_of_changeFiles h

theorem files_of_writeRecord {what : String} {v : Json}
    (h : (writeRecord what p v).on w = (.ok (), w')) :
    ∃ t, w.files.Grows t ∧ t.write p v.pretty.toUTF8 = .ok w'.files := by
  have h := Attempt.on_mapError_eq_ok.1 h
  cases hp : FilePath.parent? p with
  | none =>
      rw [hp] at h
      exact ⟨w.files, .refl _, files_of_writeFile h⟩
  | some parent =>
      rw [hp] at h
      obtain ⟨_, v, hv, hw⟩ := Attempt.on_bind_eq_ok.1 h
      exact ⟨v.files, files_of_createDirectories hv, files_of_writeFile hw⟩

theorem files_of_recorded {c : DatabaseCall} {x : Attempt DatabaseError Unit}
    (h : (recorded c x).on w = (.ok (), w')) : ∃ v, x.on w = (.ok (), v) ∧ w'.files = v.files := by
  obtain ⟨_, v, hv, hw⟩ := Attempt.on_bind_eq_ok.1 h
  cases hw
  exact ⟨v, hv, rfl⟩

/-- A call makes directories, then it writes its record if it has one. -/
theorem files_of_perform {c : DatabaseCall}
    (h : ((directory root).perform c).on w = (.ok (), w')) :
    ∃ t, w.files.Grows t ∧ match c.write? root with
      | some (q, b) => t.write q b = .ok w'.files
      | none => w'.files = t := by
  cases c with
  | connect secrets =>
      obtain ⟨v, hv, hfiles⟩ := files_of_recorded h
      exact ⟨v.files, files_of_createDirectories (Attempt.on_mapError_eq_ok.1 hv), hfiles⟩
  | run uid project commit value =>
      obtain ⟨v, hv, hfiles⟩ := files_of_recorded h
      exact hfiles ▸ files_of_writeRecord hv
  | artifact key tag project value =>
      obtain ⟨v, hv, hfiles⟩ := files_of_recorded h
      exact hfiles ▸ files_of_writeRecord hv

theorem current_of_perform {c : DatabaseCall}
    (h : ((directory root).perform c).on w = (.ok (), w')) :
    w'.files.current = w.files.current := by
  obtain ⟨t, hg, hw⟩ := files_of_perform h
  cases hc : c.write? root with
  | none =>
      rw [hc] at hw
      rw [hw, hg.current]
  | some qb =>
      rw [hc] at hw
      rw [(FileTree.write_eq_ok hw).2.2.2, ← hg.current]
      rfl

theorem holds_perform {c : DatabaseCall}
    (hc : ∀ q b, c.write? root = some (q, b) → w.files.place q = w.files.place p → q = p)
    (hp : w.files.Holds p kept) (h : ((directory root).perform c).on w = (.ok (), w')) :
    w'.files.Holds p (c.held root p kept) := by
  obtain ⟨t, hg, hw⟩ := files_of_perform h
  have hp := hp.grows hg
  rw [DatabaseCall.held]
  cases hwrite : c.write? root with
  | none =>
      rw [hwrite] at hw
      exact hw ▸ hp
  | some qb =>
      obtain ⟨q, b⟩ := qb
      rw [hwrite] at hw
      dsimp only at hw ⊢
      by_cases hq : q = p
      · rw [if_pos hq]
        exact FileTree.holds_write (hq ▸ hw)
      · rw [if_neg hq]
        refine hp.write_of_ne hw fun hplace => hq (hc q b hwrite ?_)
        rwa [FileTree.place_congr hg.current, FileTree.place_congr hg.current] at hplace

/-- The file at a path holds what was written to it last. -/
theorem holds_performAll {calls : List DatabaseCall}
    (hc : ∀ c ∈ calls, ∀ q b, c.write? root = some (q, b) →
      w.files.place q = w.files.place p → q = p)
    (hp : w.files.Holds p kept) (h : ((directory root).performAll calls).on w = (.ok (), w')) :
    w'.files.Holds p (calls.foldl (DatabaseCall.held root p) kept) := by
  induction calls generalizing w kept with
  | nil =>
      cases h
      exact hp
  | cons c calls ih =>
      obtain ⟨hhead, htail⟩ := List.forall_mem_cons.1 hc
      obtain ⟨_, v, hv, hrest⟩ := Attempt.on_bind_eq_ok.1 h
      refine ih (fun c hmem q b hwrite => ?_) (holds_perform hhead hp hv) hrest
      have hcurrent := current_of_perform hv
      rw [FileTree.place_congr hcurrent, FileTree.place_congr hcurrent]
      exact htail c hmem q b hwrite

end Database

end Experiment
