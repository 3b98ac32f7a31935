import Experiment.Proofs.Digests

/-!
# The registry around one call

A call changes the manager at one place, the entry of its key: a known key gets its new artifact
where it stands, a new one comes last. The artifact is entered before anything can fail, with its
target and its tag, so this does not depend on how the call ends. What a store refuses never gets as
far as the database.
-/

namespace Experiment

namespace LogItem

/-- The target that an artifact asks for itself. -/
def targetPath : LogItem → String
  | .key _ => ""
  | .artifact a => a.targetPath

def tag : LogItem → String
  | .key _ => ""
  | .artifact a => a.tag

end LogItem

namespace ArtifactManager
variable {m m' : ArtifactManager} {item : LogItem} {o : LogOptions} {w w' v : World}
  {r : Except RunError Unit} {e : RunError}

theorem firstNonEmpty_cons (t : String) (ts : List String) :
    firstNonEmpty (t :: ts) = if t = "" then firstNonEmpty ts else t := by
  by_cases h : t = "" <;> simp [firstNonEmpty, h]

theorem firstNonEmpty_singleton (t : String) : firstNonEmpty [t] = t := by
  rw [firstNonEmpty_cons]
  split
  next h => rw [h]; rfl
  next => rfl

/-- The target that is declared for a key; empty if there is none. -/
def declaredTarget (m : ArtifactManager) (key : String) : String :=
  (OrderedMap.find? key m.declared).join.getD ""

theorem resolveTarget_eq (m : ArtifactManager) (key requested : String) :
    m.resolveTarget key requested =
      firstNonEmpty [m.declaredTarget key, requested, joinPath m.outputPath key] := by
  rw [firstNonEmpty_cons, firstNonEmpty_cons, firstNonEmpty_singleton, resolveTarget,
    declaredTarget]
  rcases OrderedMap.find? key m.declared with _ | _ | path
  · simp
  · simp
  · simp

/-- What the options ask for comes before what the artifact says itself. -/
theorem requested_eq (item : LogItem) (o : LogOptions) :
    (requestOf item o).2 = if o.targetPath = "" then item.targetPath else o.targetPath := by
  cases item with
  | key k =>
      split
      next h => exact h
      next => rfl
  | artifact a => rfl

theorem targetPath_entryOf_eq (m : ArtifactManager) (item : LogItem) (o : LogOptions) :
    (m.entryOf item o).targetPath = firstNonEmpty
      [m.declaredTarget item.name, o.targetPath, item.targetPath,
        joinPath m.outputPath item.name] := by
  rw [targetPath_eq_targetOf, targetOf, resolveTarget_eq, requested_eq]
  simp only [firstNonEmpty_cons]
  by_cases h : o.targetPath = "" <;> simp only [if_pos, h, if_false]

theorem tag_entryOf (m : ArtifactManager) (item : LogItem) (o : LogOptions) :
    (m.entryOf item o).tag = firstNonEmpty [o.tag, item.tag, m.runTag] := by
  cases item <;> rfl

/-- Between two managers only the entry of a key has changed, to this artifact. -/
structure Touches (m : ArtifactManager) (key : String) (a : Artifact) (m' : ArtifactManager) :
    Prop where
  entry : m'.find? key = some a
  others : ∀ other, other ≠ key → m'.find? other = m.find? other
  keys : m'.keys = if key ∈ m.keys then m.keys else m.keys ++ [key]
  size : m'.size = if key ∈ m.keys then m.size else m.size + 1
  /-- Overrides and output path, policy and run. -/
  rest : m' = { m with registry := m'.registry }

theorem touches_enter (m : ArtifactManager) (a : Artifact) : m.Touches a.key a (m.enter a) := by
  have hkeys : (m.enter a).keys = if a.key ∈ m.keys then m.keys else m.keys ++ [a.key] := by
    split
    next h => exact OrderedMap.keys_insert_of_mem a h
    next h => exact OrderedMap.keys_insert_of_not_mem a h
  have hsize : ∀ u : ArtifactManager, u.size = u.keys.length := fun _ => (List.length_map _).symm
  exact {
    entry := OrderedMap.find?_insert_self _ _ _
    others := fun _ h => OrderedMap.find?_insert_of_ne a _ h
    keys := hkeys
    size := by
      rw [hsize, hsize, hkeys]
      split
      · rfl
      · exact List.length_append
    rest := rfl }

/-- Whatever fails in an upload fails in a store. -/
theorem error_send (h : (m.send item o).on w = (.error e, v)) : ∃ s, e = .storage s := by
  rw [send] at h
  split at h
  · cases hr : Store.resolve (m.entryOf item o).targetPath with
    | error s =>
        rw [upload_of_refused hr] at h
        cases h
        exact ⟨s, rfl⟩
    | ok target =>
        rw [on_upload hr] at h
        split at h
        · obtain ⟨s, -, rfl⟩ := Attempt.on_mapError_eq_error.1 h
          exact ⟨s, rfl⟩
        · split at h
          · obtain ⟨s, -, rfl⟩ := Attempt.on_mapError_eq_error.1 h
            exact ⟨s, rfl⟩
          · split at h
            · cases h
              exact ⟨_, rfl⟩
            · cases h
  · cases h

theorem error_report {db : Database} {a : Artifact} (h : (m.report db a).on w = (.error e, v)) :
    ∃ d, e = .persistence d := by
  obtain ⟨d, -, rfl⟩ := Attempt.on_mapError_eq_error.1 h
  exact ⟨d, rfl⟩

/-- After a failed upload a call does nothing more. -/
theorem log_of_refused (h : (m.send item o).on w = (.error e, v)) :
    (m.log item o).on w = ((m.enter (m.entryOf item o), .error e), v) := by
  rw [log_eq, Action.on_bind, Attempt.on_run, h]
  rfl

/-- What a call enters: the artifact as it was prepared, perhaps with its lineage. -/
theorem Logs.touches (h : Logs m item o w m' r w') : ∃ a, m.Touches item.name a m' ∧
    a.targetPath = (m.entryOf item o).targetPath ∧ a.tag = (m.entryOf item o).tag := by
  rw [← key_entryOf m item o]
  cases h with
  | refused _ | unrecorded _ _ => exact ⟨_, touches_enter m _, rfl, rfl⟩
  | recorded _ _ _ => exact ⟨_, touches_enter m (m.withLineage (m.entryOf item o)), rfl, rfl⟩

/-- The same manager with another database, or with none. -/
def withDatabase (m : ArtifactManager) (db : Option Database) : ArtifactManager :=
  { m with policy := { m.policy with database := db } }

/-- How a call ends: well, in the database, or in a store; then nothing is recorded, and no database
makes a difference. -/
theorem Logs.outcome (h : Logs m item o w m' r w') :
    r = .ok () ∨ (∃ d, r = .error (.persistence d)) ∨
      ∃ s, r = .error (.storage s) ∧ w'.ledger = w.ledger ∧
        ∀ db, ((m.withDatabase db).log item o).on w = ((m'.withDatabase db, r), w') := by
  cases h with
  | unrecorded _ _ => exact .inl rfl
  | refused sent =>
      obtain ⟨s, rfl⟩ := error_send sent
      refine .inr (.inr ⟨s, rfl, congrArg (·.ledger) ((quiet_send m item o).of_on sent), ?_⟩)
      exact fun db => log_of_refused (m := m.withDatabase db) sent
  | @recorded _ r _ _ _ _ reported =>
      cases r with
      | ok _ => exact .inl rfl
      | error e =>
          obtain ⟨d, rfl⟩ := error_report reported
          exact .inr (.inl ⟨d, rfl⟩)

/-- However a call ends, it has entered an artifact under its key: with the first target that is not
empty of what is declared, asked for and said by the artifact itself, or else under the output path,
and with the first tag that is not empty. Nothing else of the manager changes. If it ends in a store,
the database was not called. -/
theorem log_touches_own_entry (m : ArtifactManager) (item : LogItem) (o : LogOptions) (w : World) :
    ∃ m' r w' a, (m.log item o).on w = ((m', r), w') ∧ m.Touches item.name a m' ∧
      a.targetPath = firstNonEmpty [m.declaredTarget item.name, o.targetPath, item.targetPath,
        joinPath m.outputPath item.name] ∧
      a.tag = firstNonEmpty [o.tag, item.tag, m.runTag] ∧
      (r = .ok () ∨ (∃ d, r = .error (.persistence d)) ∨
        ∃ s, r = .error (.storage s) ∧ w'.ledger = w.ledger ∧
          ∀ db, ((m.withDatabase db).log item o).on w = ((m'.withDatabase db, r), w')) := by
  rcases hlog : (m.log item o).on w with ⟨⟨m', r⟩, w'⟩
  obtain ⟨a, htouches, htarget, htag⟩ := (logs hlog).touches
  exact ⟨m', r, w', a, rfl, htouches, htarget.trans (targetPath_entryOf_eq m item o),
    htag.trans (tag_entryOf m item o), (logs hlog).outcome⟩

end ArtifactManager

end Experiment
