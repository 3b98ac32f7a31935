import Experiment.Proofs.Directory

/-!
# What stores write and what they spare

A store writes to its own backend: the files know nothing of the objects in memory, and the objects
nothing of the files. What is put into a store is fetched from it again.
-/

namespace Experiment

namespace Store

/-- What a backend does not write to. -/
def spared : Backend → World → World
  | .file, w => w.apartFromFiles
  | .memory, w => { w with memory := [] }

theorem keeps_ensureParent (path : FilePath) :
    (ensureParent path).Keeps World.apartFromFiles := by
  rw [ensureParent]
  split
  · split
    · exact .pure ()
    · exact World.keeps_createDirectories _
  · exact .pure ()

theorem keeps_put (b : Backend) (path : String) (body : ByteArray) :
    (put b path body).Keeps (spared b) := by
  cases b with
  | memory => exact fun _ => rfl
  | file => exact .mapError _ (.bind (keeps_ensureParent path) fun _ => World.keeps_writeFile _ _)

theorem on_readFile (p : FilePath) (w : World) : (World.readFile p).on w = (w.files.read p, w) := by
  rw [World.readFile, Attempt.on_get_bind]
  cases w.files.read p <;> rfl

theorem keeps_upload (b : Backend) (path : String) (source : FilePath) :
    (upload b path source).Keeps (spared b) := by
  cases b with
  | memory =>
      refine .bind (.mapError _ fun w => ?_) fun _ _ => rfl
      rw [on_readFile]
  | file =>
      refine .mapError _ (.bind (keeps_ensureParent path) fun _ => ?_)
      split
      · exact .pure ()
      · exact World.keeps_changeFiles _

theorem toJournal_spared (b : Backend) : World.toJournal ∘ spared b = World.toJournal := by
  cases b <;> rfl

theorem files_of_ensureParent {p : FilePath} {w w' : World}
    (h : (ensureParent p).on w = (.ok (), w')) : w.files.Grows w'.files := by
  rw [ensureParent] at h
  split at h
  · split at h
    · cases h
      exact .refl _
    · exact Database.files_of_createDirectories h
  · cases h
    exact .refl _

theorem on_fetch_file (path : String) (w : World) :
    (fetch .file path).on w = ((w.files.read path).mapError (StoreError.ofOs path), w) := by
  rw [fetch, Attempt.on_mapError, on_readFile]

theorem fetch_of_put {b : Backend} {path : String} {body : ByteArray} {w w' : World}
    (h : (put b path body).on w = (.ok (), w')) : (fetch b path).on w' = (.ok body, w') := by
  cases b with
  | memory =>
      cases h
      rw [fetch, Attempt.on_get_bind, OrderedMap.find?_insert_self]
      rfl
  | file =>
      obtain ⟨_, v, -, hwrite⟩ := Attempt.on_bind_eq_ok.1 (Attempt.on_mapError_eq_ok.1 h)
      rw [on_fetch_file, show w'.files.read path = .ok body from
        FileTree.holds_write (Database.files_of_writeFile hwrite)]
      rfl

end Store

end Experiment
