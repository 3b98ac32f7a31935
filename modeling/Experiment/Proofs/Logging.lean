import Experiment.Artifact.Manager
import Experiment.Proofs.Stores

/-!
# What a log of artifacts leaves behind

Logging changes the registry under one key, and the journal by the record of that artifact at most.
So after any number of calls the registry has the keys in the order of their first calls, and what
the run database was sent last for a key is the artifact that the registry has, provided that the
last call for the key went well.
-/

namespace Experiment

namespace OrderedMap
variable {α : Type}

theorem insert_insert (key : String) (a b : α) (m : OrderedMap α) :
    insert key b (insert key a m) = insert key b m := by
  induction m with
  | nil => simp [insert]
  | cons p rest ih =>
      rw [insert, insert]
      split
      next hk => simp [insert, hk]
      next hk => rw [insert, if_neg hk, ih]

theorem keys_insert_of_eraseDups {names : List String} {m : OrderedMap α}
    (h : keys m = names.eraseDups) (key : String) (value : α) :
    keys (insert key value m) = (names ++ [key]).eraseDups := by
  rw [List.eraseDups_append, ← h]
  by_cases hkey : key ∈ names
  · have hmem : key ∈ keys m := h ▸ List.mem_eraseDups.2 hkey
    have hnew : [key].removeAll names = [] := by simp [List.removeAll, hkey]
    rw [hnew, keys_insert_of_mem value hmem]
    exact (List.append_nil _).symm
  · have hmem : key ∉ keys m := fun hmem => hkey (List.mem_eraseDups.1 (h ▸ hmem))
    have hnew : [key].removeAll names = [key] := by simp [List.removeAll, hkey]
    rw [hnew, keys_insert_of_not_mem value hmem]
    rfl

end OrderedMap

namespace LogItem

def name : LogItem → String
  | .key k => k
  | .artifact a => a.key

def sources : LogItem → List SourceRef
  | .key _ => []
  | .artifact a => a.sources

end LogItem

def DatabaseCall.concerns (key : String) : DatabaseCall → Bool
  | .artifact key' _ _ _ => key' = key
  | _ => false

theorem DatabaseCall.filter_concerns_self (key tag project : String) (value : ArtifactSummary) :
    [artifact key tag project value].filter (concerns key) = [.artifact key tag project value] :=
  List.filter_cons_of_pos (decide_eq_true rfl)

/-- What is recorded between two worlds is of artifacts with these names. -/
def Records (names : List String) (w w' : World) : Prop :=
  ∃ sent : List DatabaseCall, w'.ledger = w.ledger ++ sent ∧
    ∀ c ∈ sent, ∀ key, c.concerns key = true → key ∈ names

section Records
variable {names : List String} {u v w : World}

theorem Records.of_eq (names : List String) (h : w.ledger = v.ledger) : Records names v w :=
  ⟨[], by rw [h, List.append_nil], fun _ hc => absurd hc List.not_mem_nil⟩

theorem Records.artifact {key tag project : String} {value : ArtifactSummary}
    (h : w.ledger = v.ledger ++ [.artifact key tag project value]) : Records [key] v w := by
  refine ⟨_, h, fun c hc name hname => ?_⟩
  obtain rfl := List.mem_singleton.1 hc
  exact List.mem_singleton.2 (of_decide_eq_true hname).symm

theorem Records.trans {more : List String} (h : Records names u v) (h' : Records more v w)
    (hmore : ∀ key ∈ more, key ∈ names) : Records names u w := by
  obtain ⟨sent, hledger, hsent⟩ := h
  obtain ⟨rest, hrest, hconcerns⟩ := h'
  refine ⟨sent ++ rest, by rw [hrest, hledger, List.append_assoc], fun c hc key hkey => ?_⟩
  obtain hc | hc := List.mem_append.1 hc
  · exact hsent c hc key hkey
  · exact hmore key (hconcerns c hc key hkey)

end Records

namespace ArtifactManager
variable {m m' : ArtifactManager} {item : LogItem} {o : LogOptions} {w w' : World}
  {r : Except RunError Unit}

@[simp] theorem key_entryOf (m : ArtifactManager) (item : LogItem) (o : LogOptions) :
    (m.entryOf item o).key = item.name := by
  cases item <;> rfl

@[simp] theorem sources_entryOf (m : ArtifactManager) (item : LogItem) (o : LogOptions) :
    (m.entryOf item o).sources = item.sources := by
  cases item <;> rfl

theorem upload_of_refused {a : Artifact} {e : StoreError}
    (h : Store.resolve a.targetPath = .error e) (payload : Option ByteArray) (w : World) :
    (m.upload a payload).on w = (.error (.storage e), w) := by
  rw [upload, h]
  rfl

/-- The file to upload where there is no body. -/
def localSource (a : Artifact) : FilePath :=
  if a.srcPath = "" then a.key else a.srcPath

section Upload
variable {a : Artifact} {b : Backend} {path : String}
  (h : Store.resolve a.targetPath = .ok (b, path))
include h

theorem on_upload (payload : Option ByteArray) (w : World) :
    (m.upload a payload).on w =
      match payload with
      | some body => (Attempt.mapError RunError.storage (Store.put b path body)).on w
      | none =>
        if w.files.isFile (localSource a) then
          (Attempt.mapError RunError.storage (Store.upload b path (localSource a))).on w
        else
          match m.policy.upload with
          | .strict => (.error (.storage (.missingSource a.key)), w)
          | .lenient => (.ok (), w) := by
  have htarget : (Attempt.mapError RunError.storage
      (Attempt.ofExcept (Store.resolve a.targetPath))).on w = (.ok (b, path), w) := by
    rw [h]
    rfl
  rw [upload, Attempt.on_bind_of_ok htarget]
  cases payload with
  | some body => rfl
  | none =>
      change Attempt.on (liftM (World.isFile (localSource a)) >>= _) w = _
      rw [Attempt.on_lift_bind]
      change Attempt.on (if w.files.isFile (localSource a) then _ else _) w = _
      split
      · rfl
      · cases m.policy.upload <;> rfl

theorem keeps_upload (payload : Option ByteArray) :
    (m.upload a payload).Keeps (Store.spared b) := by
  intro w
  rw [on_upload h]
  cases payload with
  | some body => exact Attempt.Keeps.mapError _ (Store.keeps_put b path body) w
  | none =>
      dsimp only
      split
      · exact Attempt.Keeps.mapError _ (Store.keeps_upload b path _) w
      · cases m.policy.upload <;> rfl

end Upload

theorem quiet_upload (m : ArtifactManager) (a : Artifact) (payload : Option ByteArray) :
    (m.upload a payload).Quiet := by
  cases h : Store.resolve a.targetPath with
  | error e =>
      intro w
      rw [upload_of_refused h]
  | ok target =>
      obtain ⟨b, path⟩ := target
      have hk := (keeps_upload (m := m) h payload).map World.toJournal
      rwa [Store.toJournal_spared] at hk

/-- What a call uploads. -/
def send (m : ArtifactManager) (item : LogItem) (o : LogOptions) : Attempt RunError Unit :=
  if o.upload then m.upload (m.entryOf item o) (payload? (requestOf item o).1 o) else pure ()

/-- What a call records in a database. -/
def report (m : ArtifactManager) (db : Database) (a : Artifact) : Attempt RunError Unit :=
  Attempt.mapError RunError.persistence
    (db.storeArtifact a.key a.fullSummary a.tag m.execution.project)

theorem quiet_send (m : ArtifactManager) (item : LogItem) (o : LogOptions) :
    (m.send item o).Quiet := by
  rw [send]
  split
  · exact quiet_upload m _ _
  · exact .pure ()

/-- The ways in which a call ends: its upload fails, there is no database, or a database is sent the
artifact with its lineage. -/
inductive Logs (m : ArtifactManager) (item : LogItem) (o : LogOptions) (w : World) :
    ArtifactManager → Except RunError Unit → World → Prop
  | refused {e : RunError} {v : World} (sent : (m.send item o).on w = (.error e, v)) :
    Logs m item o w (m.enter (m.entryOf item o)) (.error e) v
  | unrecorded {v : World} (database : m.policy.database = none)
    (sent : (m.send item o).on w = (.ok (), v)) :
    Logs m item o w (m.enter (m.entryOf item o)) (.ok ()) v
  | recorded {db : Database} {r : Except RunError Unit} {v w' : World}
    (database : m.policy.database = some db) (sent : (m.send item o).on w = (.ok (), v))
    (reported : (m.report db (m.withLineage (m.entryOf item o))).on v = (r, w')) :
    Logs m item o w (m.enter (m.withLineage (m.entryOf item o))) r w'

theorem enter_enter_withLineage (m : ArtifactManager) (a : Artifact) :
    (m.enter a).enter (m.withLineage a) = m.enter (m.withLineage a) := by
  rw [enter, enter, enter, withLineage, OrderedMap.insert_insert]

theorem log_eq (m : ArtifactManager) (item : LogItem) (o : LogOptions) :
    m.log item o = (do
      match ← (m.send item o).run with
      | .error e => return (m.enter (m.entryOf item o), .error e)
      | .ok () =>
        match m.policy.database with
        | none => return (m.enter (m.entryOf item o), .ok ())
        | some db =>
          let stored ← (m.report db (m.withLineage (m.entryOf item o))).run
          return (m.enter (m.withLineage (m.entryOf item o)), stored)) := by
  rw [log, send]
  dsimp only
  simp only [enter_enter_withLineage]
  split <;> rfl

theorem logs (h : (m.log item o).on w = ((m', r), w')) : Logs m item o w m' r w' := by
  rw [log_eq, Action.on_bind, Attempt.on_run] at h
  cases hs : (m.send item o).on w with
  | mk sent v =>
      rw [hs] at h
      cases sent with
      | error e =>
          cases h
          exact .refused hs
      | ok _ =>
          cases hdb : m.policy.database with
          | none =>
              rw [hdb] at h
              cases h
              exact .unrecorded hdb hs
          | some db =>
              rw [hdb] at h
              cases h
              exact .recorded hdb hs rfl

section Step
variable (h : Logs m item o w m' r w')
include h

theorem Logs.entered : ∃ a : Artifact, a.key = item.name ∧ m' = m.enter a := by
  cases h with
  | refused => exact ⟨_, key_entryOf m item o, rfl⟩
  | unrecorded => exact ⟨_, key_entryOf m item o, rfl⟩
  | recorded => exact ⟨m.withLineage (m.entryOf item o), key_entryOf m item o, rfl⟩

theorem Logs.journal_of_ok {db : Database} (hr : r = .ok ()) (hdb : m.policy.database = some db) :
    m' = m.enter (m.withLineage (m.entryOf item o)) ∧
      w'.ledger = w.ledger ++ [.artifact item.name (m.entryOf item o).tag m.execution.project
        (m.withLineage (m.entryOf item o)).fullSummary] := by
  cases h with
  | refused => cases hr
  | unrecorded hnone => rw [hnone] at hdb; cases hdb
  | recorded hsome sent reported =>
      subst hr
      have hj := Database.journal_recorded_of_ok (Database.quiet_keepArtifact _ _ _ _ _)
        (Attempt.on_mapError_eq_ok.1 reported)
      rw [Attempt.Keeps.of_on (quiet_send m item o) sent] at hj
      refine ⟨rfl, ?_⟩
      rw [hj, Journal.ledger_add, ← key_entryOf m item o]
      rfl

theorem Logs.records : Records [item.name] w w' := by
  cases h with
  | refused sent =>
      exact .of_eq _ (congrArg (·.ledger) (Attempt.Keeps.of_on (quiet_send m item o) sent))
  | unrecorded _ sent =>
      exact .of_eq _ (congrArg (·.ledger) (Attempt.Keeps.of_on (quiet_send m item o) sent))
  | @recorded db r v w' hsome sent reported =>
      have hsent := Attempt.Keeps.of_on (quiet_send m item o) sent
      cases r with
      | error e =>
          obtain ⟨_, hstored, -⟩ := Attempt.on_mapError_eq_error.1 reported
          have hj := Database.journal_recorded_of_error (db.quiet_keepArtifact _ _ _ _) hstored
          exact .of_eq _ (congrArg (·.ledger) (hj.trans hsent))
      | ok _ =>
          have hj := Database.journal_recorded_of_ok (db.quiet_keepArtifact _ _ _ _)
            (Attempt.on_mapError_eq_ok.1 reported)
          rw [hsent] at hj
          rw [← key_entryOf m item o]
          exact .artifact (congrArg (·.ledger) hj)

end Step

/-- One call after the other, and what came of each. -/
def logAll (m : ArtifactManager) :
    List (LogItem × LogOptions) → Action (ArtifactManager × List (Except RunError Unit))
  | [] => pure (m, [])
  | (item, o) :: calls => do
    let (m, outcome) ← m.log item o
    let (m, outcomes) ← logAll m calls
    return (m, outcome :: outcomes)

section Run
variable {m₁ m₂ : ArtifactManager} {w₁ w₂ : World}
  {calls before after : List (LogItem × LogOptions)} {outcomes₁ outcomes₂ : List (Except RunError Unit)}

theorem logAll_cons (h₁ : (m.log item o).on w = ((m₁, r), w₁))
    (h₂ : (m₁.logAll calls).on w₁ = ((m₂, outcomes₂), w₂)) :
    (m.logAll ((item, o) :: calls)).on w = ((m₂, r :: outcomes₂), w₂) := by
  rw [logAll, Action.on_bind, h₁, Action.on_bind, h₂]
  rfl

theorem of_logAll_cons {c : LogItem × LogOptions}
    (h : (m.logAll (c :: calls)).on w = ((m₂, outcomes₂), w₂)) :
    ∃ m₁ r w₁ rest, (m.log c.1 c.2).on w = ((m₁, r), w₁) ∧
      (m₁.logAll calls).on w₁ = ((m₂, rest), w₂) ∧ outcomes₂ = r :: rest := by
  rw [logAll, Action.on_bind, Action.on_bind] at h
  cases h
  exact ⟨_, _, _, _, rfl, rfl, rfl⟩

theorem logAll_append (h₁ : (m.logAll before).on w = ((m₁, outcomes₁), w₁))
    (h₂ : (m₁.logAll after).on w₁ = ((m₂, outcomes₂), w₂)) :
    (m.logAll (before ++ after)).on w = ((m₂, outcomes₁ ++ outcomes₂), w₂) := by
  induction before generalizing m w outcomes₁ with
  | nil =>
      cases h₁
      exact h₂
  | cons c before ih =>
      obtain ⟨_, _, _, _, hlog, hrest, rfl⟩ := of_logAll_cons h₁
      exact logAll_cons hlog (ih hrest)

theorem length_outcomes (h : (m.logAll calls).on w = ((m₁, outcomes₁), w₁)) :
    outcomes₁.length = calls.length := by
  induction calls generalizing m w outcomes₁ with
  | nil =>
      cases h
      rfl
  | cons c calls ih =>
      obtain ⟨_, _, _, _, -, hrest, rfl⟩ := of_logAll_cons h
      exact congrArg (· + 1) (ih hrest)

/-- A call among others is made where those before it end. -/
theorem logs_of_logAll
    (h : (m.logAll (before ++ (item, o) :: after)).on w = ((m₂, outcomes₂), w₂))
    (hr : outcomes₂[before.length]? = some r) :
    ∃ u₁ v₁ sofar u₂ v₂ rest, (m.logAll before).on w = ((u₁, sofar), v₁) ∧
      Logs u₁ item o v₁ u₂ r v₂ ∧ (u₂.logAll after).on v₂ = ((m₂, rest), w₂) := by
  rcases hbefore : (m.logAll before).on w with ⟨⟨u₁, sofar⟩, v₁⟩
  rcases hlog : (u₁.log item o).on v₁ with ⟨⟨u₂, outcome⟩, v₂⟩
  rcases hafter : (u₂.logAll after).on v₂ with ⟨⟨u₃, rest⟩, v₃⟩
  rw [logAll_append hbefore (logAll_cons hlog hafter)] at h
  cases h
  rw [← length_outcomes hbefore, List.getElem?_append_right (Nat.le_refl _), Nat.sub_self] at hr
  cases hr
  exact ⟨u₁, v₁, sofar, u₂, v₂, rest, rfl, logs hlog, hafter⟩

/-- What every call preserves holds in the end. -/
theorem logAll_preserves {P : ArtifactManager → World → Prop}
    (step : ∀ c ∈ calls, ∀ m w m' r w', P m w → Logs m c.1 c.2 w m' r w' → P m' w') (h : P m w)
    (hrun : (m.logAll calls).on w = ((m₁, outcomes₁), w₁)) : P m₁ w₁ := by
  induction calls generalizing m w outcomes₁ with
  | nil =>
      cases hrun
      exact h
  | cons c calls ih =>
      obtain ⟨hhead, htail⟩ := List.forall_mem_cons.1 step
      obtain ⟨_, _, _, _, hlog, hrest, -⟩ := of_logAll_cons hrun
      exact ih htail (hhead _ _ _ _ _ h (logs hlog)) hrest

theorem run_of_logAll (h : (m.logAll calls).on w = ((m₁, outcomes₁), w₁)) :
    m₁.policy = m.policy ∧ m₁.execution = m.execution ∧ m₁.inputs = m.inputs := by
  refine logAll_preserves (P := fun m' _ => m'.policy = m.policy ∧ m'.execution = m.execution ∧
    m'.inputs = m.inputs) ?_ ⟨rfl, rfl, rfl⟩ h
  intro c _ m' w m'' r w' hm' hlogs
  obtain ⟨a, -, rfl⟩ := hlogs.entered
  exact hm'

/-- A key that is not logged keeps its artifact. -/
theorem find?_of_logAll {key : String} (hkey : ∀ c ∈ calls, c.1.name ≠ key)
    (h : (m.logAll calls).on w = ((m₁, outcomes₁), w₁)) : m₁.find? key = m.find? key := by
  refine logAll_preserves (P := fun m' _ => m'.find? key = m.find? key) ?_ rfl h
  intro c hc m' w m'' r w' hm' hlogs
  obtain ⟨a, ha, rfl⟩ := hlogs.entered
  rw [← hm']
  exact OrderedMap.find?_insert_of_ne a _ (by rw [ha]; exact Ne.symm (hkey c hc))

theorem records_of_logAll (h : (m.logAll calls).on w = ((m₁, outcomes₁), w₁)) :
    Records (calls.map (·.1.name)) w w₁ := by
  refine logAll_preserves (P := fun _ v => Records (calls.map (·.1.name)) w v) ?_ (.of_eq _ rfl) h
  intro call hcall m v m' r v' hv hlogs
  refine hv.trans hlogs.records fun key hkey => ?_
  obtain rfl := List.mem_singleton.1 hkey
  exact List.mem_map_of_mem hcall

/-- After a call that went well and is the last one for its key, what was sent last for the key is
what the registry has. -/
theorem sent_of_logAll {db : Database} (hdb : m.policy.database = some db)
    (h : (m.logAll (before ++ (item, o) :: after)).on w = ((m₂, outcomes₂), w₂))
    (hafter : ∀ c ∈ after, c.1.name ≠ item.name) (hok : outcomes₂[before.length]? = some (.ok ())) :
    ∃ a sent, m₂.find? item.name = some a ∧ w₂.ledger = w.ledger ++ sent ∧
      (sent.filter (DatabaseCall.concerns item.name)).getLast? =
        some (.artifact item.name a.tag m.execution.project a.fullSummary) ∧
      a.execution = some m.execution ∧
      a.sources = if item.sources.isEmpty then m.inputs else item.sources := by
  obtain ⟨u₁, v₁, sofar, u₂, v₂, rest, hbefore, hlogs, hrest⟩ := logs_of_logAll h hok
  obtain ⟨hpolicy, hexecution, hinputs⟩ := run_of_logAll hbefore
  obtain ⟨rfl, hsent⟩ := hlogs.journal_of_ok rfl (hpolicy ▸ hdb)
  obtain ⟨sent₁, hsent₁, -⟩ := records_of_logAll hbefore
  obtain ⟨sent₂, hsent₂, hconcerns⟩ := records_of_logAll hrest
  have hlater : sent₂.filter (DatabaseCall.concerns item.name) = [] := by
    refine List.filter_eq_nil_iff.2 fun c hc hkey => ?_
    obtain ⟨call, hcall, hname⟩ := List.mem_map.1 (hconcerns c hc item.name hkey)
    exact hafter call hcall hname
  rw [hsent₁, List.append_assoc] at hsent
  rw [hsent, List.append_assoc] at hsent₂
  refine ⟨u₁.withLineage (u₁.entryOf item o), _, ?_, hsent₂, ?_, ?_, ?_⟩
  · rw [find?_of_logAll hafter hrest, ← key_entryOf u₁ item o]
    exact OrderedMap.find?_insert_self _ _ _
  · rw [List.filter_append, List.filter_append, hlater, List.append_nil,
      DatabaseCall.filter_concerns_self, List.getLast?_concat, hexecution]
    rfl
  · rw [← hexecution]
    rfl
  · rw [← hinputs, ← sources_entryOf u₁ item o]
    rfl

/-- Every artifact is entered under its own key, and once. -/
structure Tidy (m : ArtifactManager) : Prop where
  nodup : m.keys.Nodup
  keyed : ∀ p ∈ m.registry, p.2.key = p.1

theorem Tidy.enter (h : m.Tidy) (a : Artifact) : (m.enter a).Tidy where
  nodup := OrderedMap.nodup_keys_insert a.key a h.nodup
  keyed p hp := by
    obtain rfl | hp := OrderedMap.mem_insert hp
    · rfl
    · exact h.keyed p hp

theorem tidy_of_logAll (hm : m.Tidy) (h : (m.logAll calls).on w = ((m₁, outcomes₁), w₁)) :
    m₁.Tidy := by
  refine logAll_preserves (P := fun m' _ => m'.Tidy) ?_ hm h
  intro c _ m' w m'' r w' hm' hlogs
  obtain ⟨a, -, rfl⟩ := hlogs.entered
  exact hm'.enter a

/-- A key that is entered for the first time goes last. -/
theorem keys_enter {names : List String} (h : m.keys = names.eraseDups) (a : Artifact) :
    (m.enter a).keys = (names ++ [a.key]).eraseDups :=
  OrderedMap.keys_insert_of_eraseDups h a.key a

theorem keys_of_logAll {names : List String} (hm : m.keys = names.eraseDups)
    (h : (m.logAll calls).on w = ((m₁, outcomes₁), w₁)) :
    m₁.keys = (names ++ calls.map (·.1.name)).eraseDups := by
  induction calls generalizing m w names outcomes₁ with
  | nil =>
      cases h
      rw [hm, List.map_nil, List.append_nil]
  | cons c calls ih =>
      obtain ⟨_, _, _, _, hlog, hrest, -⟩ := of_logAll_cons h
      obtain ⟨a, ha, rfl⟩ := (logs hlog).entered
      rw [List.map_cons, List.append_cons, ← ha]
      exact ih (keys_enter hm a) hrest

end Run

theorem tidy_forRun (run : Run) (policy : ArtifactPolicy) : (forRun run policy).Tidy :=
  ⟨List.nodup_nil, fun _ hp => absurd hp List.not_mem_nil⟩

theorem baseSummary_eq (a : Artifact) :
    a.baseSummary = { a.fullSummary with sources := [], execution := none } := by
  obtain ⟨key, kind⟩ := a
  cases kind <;> rfl

theorem key_baseSummary (a : Artifact) : a.baseSummary.key = a.key := by
  obtain ⟨key, kind⟩ := a
  cases kind <;> rfl

theorem Tidy.summaries_key (hm : m.Tidy) : m.summaries.map (·.key) = m.keys := by
  rw [summaries, List.map_map]
  refine List.map_congr_left fun p hp => ?_
  exact (key_baseSummary p.2).trans (hm.keyed p hp)

theorem Tidy.of_mem_summaries (hm : m.Tidy) {s : ArtifactSummary} (hs : s ∈ m.summaries) :
    ∃ a, m.find? s.key = some a ∧ s = { a.fullSummary with sources := [], execution := none } := by
  obtain ⟨p, hp, rfl⟩ := List.mem_map.1 hs
  refine ⟨p.2, ?_, baseSummary_eq p.2⟩
  rw [key_baseSummary, hm.keyed p hp]
  exact OrderedMap.find?_of_mem hm.nodup hp

/-- For a key whose last call went well the last record sent is that of the artifact entered, with
the tag it has and the project of the run. The record itself has the identity of the run, and the
artifact's own sources or else the inputs of the run; what the database refuses does not matter for
such a key. The status lists one summary a
key, in the order of first calls: what is entered without sources and execution. -/
theorem logAll_agrees (run : Run) (policy : ArtifactPolicy) (db : Database)
    (calls : List (LogItem × LogOptions)) (w : World) (m : ArtifactManager)
    (outcomes : List (Except RunError Unit)) (w' : World)
    (h : ((forRun run { policy with database := some db }).logAll calls).on w =
      ((m, outcomes), w')) :
    ∃ sent : List DatabaseCall, w'.ledger = w.ledger ++ sent ∧
      (∀ before item o after, calls = before ++ (item, o) :: after →
        (∀ c ∈ after, c.1.name ≠ item.name) → outcomes[before.length]? = some (.ok ()) →
        ∃ a, m.find? item.name = some a ∧
          (sent.filter (DatabaseCall.concerns item.name)).getLast? =
            some (.artifact item.name a.tag run.metadata.project a.fullSummary) ∧
          a.fullSummary.execution = some ⟨run.uid, run.metadata.name, run.metadata.project,
            run.metadata.iteration⟩ ∧
          (a.fullSummary.sources = if item.sources.isEmpty then
            run.spec.inputs.map fun p => ⟨p.1, p.2⟩ else item.sources) ∧
          a.execution = a.fullSummary.execution ∧ a.sources = a.fullSummary.sources) ∧
      ∀ other : Run, ∃ summaries,
        (m.storeSpec other).status.map (·.outputArtifacts) = some summaries ∧
        summaries.map (·.key) = (calls.map (·.1.name)).eraseDups ∧
        ∀ s ∈ summaries, ∃ a, m.find? s.key = some a ∧
          s = { a.fullSummary with sources := [], execution := none } := by
  have htidy : m.Tidy := tidy_of_logAll (tidy_forRun run _) h
  have hempty : (forRun run { policy with database := some db }).keys = [].eraseDups := rfl
  have hkeys : m.keys = (calls.map (·.1.name)).eraseDups := keys_of_logAll hempty h
  obtain ⟨sent, hledger, -⟩ := records_of_logAll h
  refine ⟨sent, hledger, ?_, fun other => ⟨m.summaries, rfl, ?_, fun s => htidy.of_mem_summaries⟩⟩
  · rintro before item o after rfl hafter hok
    obtain ⟨a, sent', hfind, hledger', hlast, hexecution, hsources⟩ :=
      sent_of_logAll rfl h hafter hok
    obtain rfl := List.append_cancel_left (hledger.symm.trans hledger')
    exact ⟨a, hfind, hlast, hexecution, hsources, rfl, rfl⟩
  · rw [htidy.summaries_key, hkeys]

/-- A model is logged twice, and in between an upload to a scheme that is not known fails. -/
theorem logAll_agrees_again :
    ∃ m outcomes w' sent a,
      ((forRun { metadata := { uid := "u", name := "train", project := "demo", tag := "v1" },
                 spec := { inputs := [("data", "in.csv")], outputPath := "memory://out" } }
          { database := some (.ledger {}) }).logAll
        [(.key "model", { body := some "a".toUTF8 }), (.key "log", { targetPath := "s3://b/log" }),
          (.key "model", { body := some "b".toUTF8, tag := "v2" })]).on {} =
        ((m, outcomes), w') ∧
      outcomes.map (·.isOk) = [true, false, true] ∧
      w'.ledger = sent ∧ m.find? "model" = some a ∧
      (sent.filter (DatabaseCall.concerns "model")).getLast? =
        some (.artifact "model" a.tag "demo" a.fullSummary) ∧
      a.fullSummary.execution = some ⟨"u", "train", "demo", 0⟩ ∧
      a.fullSummary.sources = [⟨"data", "in.csv"⟩] ∧
      (m.storeSpec {}).status.map (fun s => s.outputArtifacts.map (·.key)) =
        some ["model", "log"] := by
  rcases h : ((forRun { metadata := { uid := "u", name := "train", project := "demo", tag := "v1" },
                        spec := { inputs := [("data", "in.csv")], outputPath := "memory://out" } }
          { database := some (.ledger {}) }).logAll
        [(.key "model", { body := some "a".toUTF8 }), (.key "log", { targetPath := "s3://b/log" }),
          (.key "model", { body := some "b".toUTF8, tag := "v2" })]).on {}
    with ⟨⟨m, outcomes⟩, w'⟩
  have houtcomes : outcomes.map (·.isOk) = [true, false, true] := by
    rw [← show _ = outcomes from congrArg (·.1.2) h]
    decide +kernel
  obtain ⟨r, hr, hok⟩ : ∃ r, outcomes[2]? = some r ∧ r.isOk = true := by
    rw [← Option.map_eq_some_iff, ← List.getElem?_map, houtcomes]
    rfl
  obtain ⟨sent, hledger, hlast, hstatus⟩ := logAll_agrees _ {} (.ledger {}) _ {} m outcomes w' h
  obtain ⟨a, hfind, hrecord, hexecution, hsources, -⟩ := hlast
    [(.key "model", { body := some "a".toUTF8 }), (.key "log", { targetPath := "s3://b/log" })]
    (.key "model") _ [] rfl (fun _ hc => absurd hc List.not_mem_nil)
    (by cases r; cases hok; exact hr)
  obtain ⟨summaries, hsummaries, hkeys, -⟩ := hstatus {}
  have hnames : summaries.map (·.key) = ["model", "log"] := hkeys.trans (by decide)
  have hlisted := congrArg (Option.map (List.map ArtifactSummary.key)) hsummaries
  exact ⟨m, outcomes, w', sent, a, rfl, houtcomes, hledger, hfind, hrecord, hexecution, hsources,
    hlisted.trans (congrArg some hnames)⟩

end ArtifactManager

end Experiment
