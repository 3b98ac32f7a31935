import Experiment.Proofs.Targets
import Experiment.Proofs.Uploads

/-!
# Digests and the bytes they are of

What has bytes is entered with their digest, and its bytes go to the store before anything else can
fail. In memory nothing is overwritten but the target itself. So where every key has targets of its
own there, the digest that the registry ends with is that of the bytes that the store ends with.
-/

namespace Experiment

/-- Recording an artifact leaves the objects in memory alone. -/
def Database.SparesMemory (db : Database) : Prop :=
  ∀ key summary tag project, (db.keepArtifact key summary tag project).Keeps World.memory

theorem Database.sparesMemory_directory (root : FilePath) : (directory root).SparesMemory :=
  fun _ _ _ _ => (keeps_writeRecord _ _ _).map World.memory

theorem Database.sparesMemory_ledger (refusals : Refusals) : (ledger refusals).SparesMemory := by
  intro key summary tag project
  change (refuseIf _ _).Keeps World.memory
  cases refusals.artifacts.covers key
  · exact .pure ()
  · exact .throw _

namespace LogItem

def body? : LogItem → Option ByteArray
  | .key _ => none
  | .artifact a => a.body?

def hash? : LogItem → Option String
  | .key _ => none
  | .artifact a => a.hash

end LogItem

namespace Store
variable {path other : String}

def object? (path : String) (w : World) : Option ByteArray :=
  OrderedMap.find? path w.memory

theorem keeps_put_memory (h : other ≠ path) (body : ByteArray) :
    (put .memory path body).Keeps (object? other) :=
  fun _ => OrderedMap.find?_insert_of_ne body _ h

theorem keeps_upload_memory (h : other ≠ path) (source : FilePath) :
    (upload .memory path source).Keeps (object? other) := by
  refine .bind (.mapError _ fun w => ?_) fun body => keeps_put_memory h body
  rw [on_readFile]

theorem eq_of_resolve_memory {url url' : String} (h : resolve url = .ok (.memory, path))
    (h' : resolve url' = .ok (.memory, path)) : url = url' := by
  have hurl : ∀ u, resolve u = .ok (.memory, path) → u.toList = "memory://".toList ++ path.toList := by
    intro u hu
    rw [resolve] at hu
    split at hu
    next rest hrest =>
      cases hu
      have hlist : u.toList = "memory://".toList ++ rest := Text.afterStart?_eq_some.1 hrest
      rw [hlist, String.toList_ofList (l := rest)]
    next =>
      split at hu
      · cases hu
      · split at hu <;> cases hu
  exact String.toList_inj.1 ((hurl url h).trans (hurl url' h').symm)

end Store

namespace ArtifactManager
variable {m m' : ArtifactManager} {item : LogItem} {o : LogOptions} {path other : String}
  {body : ByteArray} {w w' : World} {r : Except RunError Unit}

/-- The bytes of a call: those it is given, or else those of what is logged, if there are any. -/
def content? (item : LogItem) (o : LogOptions) : Option ByteArray :=
  (o.body.or item.body?).filter fun bytes => bytes.size ≠ 0

theorem payload?_eq_content? (item : LogItem) (o : LogOptions) :
    payload? (requestOf item o).1 o = content? item o := by
  cases item with
  | key k => cases hb : o.body <;> simp [payload?, content?, requestOf, Artifact.generic,
      Artifact.body?, LogItem.body?, hb]
  | artifact a =>
      have hbody : (requestOf (.artifact a) o).1.body? = a.body? := rfl
      rw [payload?, content?, hbody, LogItem.body?, Option.orElse_eq_orElse, Option.orElse_eq_or]

/-- The target of a call. -/
def targetOf (m : ArtifactManager) (item : LogItem) (o : LogOptions) : String :=
  m.resolveTarget item.name (requestOf item o).2

theorem targetPath_eq_targetOf (m : ArtifactManager) (item : LogItem) (o : LogOptions) :
    (m.entryOf item o).targetPath = m.targetOf item o := by
  cases item <;> rfl

theorem hash_entryOf (hcalc : m.policy.calcHash = true) (hpreset : item.hash? = none) :
    (m.entryOf item o).hash = (content? item o).map Digest.hex := by
  have hown : (requestOf item o).1.hash = none := by
    cases item
    · rfl
    · exact hpreset
  rw [entryOf]
  dsimp only
  rw [if_pos hcalc, payload?_eq_content?, hown]
  cases content? item o <;> rfl

/-- What a step keeps if its upload and its record do. -/
theorem Logs.view_eq {σ : Type} {view : World → σ} (h : Logs m item o w m' r w')
    (hsend : (m.send item o).Keeps view)
    (hreport : ∀ db, m.policy.database = some db → ∀ a, (m.report db a).Keeps view) :
    view w' = view w := by
  cases h with
  | refused sent => exact hsend.of_on sent
  | unrecorded _ sent => exact hsend.of_on sent
  | recorded hdb sent reported => exact ((hreport _ hdb _).of_on reported).trans (hsend.of_on sent)

section Memory
variable (hpath : Store.resolve (m.targetOf item o) = .ok (.memory, path))
include hpath

theorem keeps_send_memory (h : other ≠ path) : (m.send item o).Keeps (Store.object? other) := by
  rw [← targetPath_eq_targetOf] at hpath
  rw [send]
  split
  · intro w
    rw [on_upload hpath]
    cases payload? (requestOf item o).1 o with
    | some body => exact Attempt.Keeps.mapError _ (Store.keeps_put_memory h body) w
    | none =>
        dsimp only
        split
        · exact Attempt.Keeps.mapError _ (Store.keeps_upload_memory h _) w
        · cases m.policy.upload <;> rfl
  · exact .pure ()

/-- Bytes for memory are never refused. -/
theorem on_send_memory (hupload : o.upload = true) (hbody : content? item o = some body)
    (w : World) : (m.send item o).on w =
      (.ok (), { w with memory := OrderedMap.insert path body w.memory }) := by
  rw [← targetPath_eq_targetOf] at hpath
  rw [send, if_pos hupload, on_upload hpath, payload?_eq_content?, hbody]
  rfl

variable (hdb : ∀ db, m.policy.database = some db → db.SparesMemory)
include hdb

theorem Logs.object?_of_ne (h : Logs m item o w m' r w') (hne : other ≠ path) :
    Store.object? other w' = Store.object? other w :=
  h.view_eq (keeps_send_memory hpath hne) fun db hsome a =>
    (keeps_report m db a (fun _ _ => rfl) (hdb db hsome)).map (OrderedMap.find? other)

theorem Logs.object?_of_content (h : Logs m item o w m' r w') (hupload : o.upload = true)
    (hbody : content? item o = some body) : Store.object? path w' = some body := by
  have hsend := on_send_memory hpath hupload hbody w
  have hstored : Store.object? path { w with memory := OrderedMap.insert path body w.memory } =
      some body := OrderedMap.find?_insert_self _ _ _
  cases h with
  | refused sent =>
      rw [hsend] at sent
      cases sent
  | unrecorded _ sent =>
      rw [hsend] at sent
      cases sent
      exact hstored
  | @recorded db r v w' hsome sent reported =>
      rw [hsend] at sent
      cases sent
      have hkept := (keeps_report m db _ (fun _ _ => rfl) (hdb db hsome)).of_on reported
      rw [Store.object?, hkept]
      exact hstored

end Memory

theorem Logs.find?_entry (h : Logs m item o w m' r w') :
    ∃ a, m'.find? item.name = some a ∧ a.hash = (m.entryOf item o).hash ∧
      a.targetPath = m.targetOf item o := by
  rw [← key_entryOf m item o, ← targetPath_eq_targetOf]
  cases h with
  | refused _ | unrecorded _ _ => exact ⟨_, OrderedMap.find?_insert_self _ _ _, rfl, rfl⟩
  | recorded _ _ _ =>
      exact ⟨m.withLineage (m.entryOf item o), OrderedMap.find?_insert_self _ _ _, rfl, rfl⟩

/-- What decides on the targets and records of a manager. -/
def Aims (m m' : ArtifactManager) : Prop :=
  m'.policy = m.policy ∧ m'.declared = m.declared ∧ m'.outputPath = m.outputPath

theorem Aims.targetOf_eq (h : m.Aims m') (item : LogItem) (o : LogOptions) :
    m'.targetOf item o = m.targetOf item o := by
  obtain ⟨-, hdeclared, houtput⟩ := h
  rw [targetOf, targetOf, resolveTarget, resolveTarget, hdeclared, houtput]

section Run
variable {calls : List (LogItem × LogOptions)} {outcomes : List (Except RunError Unit)}

theorem Logs.aims {m₀ : ArtifactManager} (h : Logs m item o w m' r w') (hm : m₀.Aims m) :
    m₀.Aims m' := by
  obtain ⟨a, -, rfl⟩ := h.entered
  exact hm

theorem aims_of_logAll (h : (m.logAll calls).on w = ((m', outcomes), w')) : m.Aims m' :=
  logAll_preserves (P := fun m' _ => m.Aims m') (fun _ _ _ _ _ _ _ hm hlogs => hlogs.aims hm)
    ⟨rfl, rfl, rfl⟩ h

theorem object?_of_logAll (hdb : ∀ db, m.policy.database = some db → db.SparesMemory)
    (hother : ∀ c ∈ calls, ∃ path, Store.resolve (m.targetOf c.1 c.2) = .ok (.memory, path) ∧
      other ≠ path)
    (h : (m.logAll calls).on w = ((m', outcomes), w')) :
    Store.object? other w' = Store.object? other w := by
  refine (logAll_preserves (P := fun m' v => m.Aims m' ∧ Store.object? other v =
    Store.object? other w) ?_ ⟨⟨rfl, rfl, rfl⟩, rfl⟩ h).2
  rintro c hc m₁ v m₂ r v' ⟨haims, hv⟩ hlogs
  obtain ⟨path, hpath, hne⟩ := hother c hc
  rw [← haims.targetOf_eq] at hpath
  refine ⟨hlogs.aims haims, ?_⟩
  rw [hlogs.object?_of_ne hpath (fun db hsome => hdb db (haims.1 ▸ hsome)) hne, hv]

end Run

/-- After any calls whose targets are in memory, no two keys sharing one, the entry of a key has a
digest exactly if the last call for it had bytes, and then the object at its target has this digest.
Bytes for memory are never refused, so this holds also where a record could not be kept. -/
theorem digests_of_logAll (m : ArtifactManager) (calls : List (LogItem × LogOptions)) (w : World)
    (m' : ArtifactManager) (outcomes : List (Except RunError Unit)) (w' : World)
    (hcalc : m.policy.calcHash = true)
    (hdb : ∀ db, m.policy.database = some db → db.SparesMemory)
    (hupload : ∀ c ∈ calls, c.2.upload = true)
    (hmemory : ∀ c ∈ calls, ∃ path, Store.resolve (m.targetOf c.1 c.2) = .ok (.memory, path))
    (hpreset : ∀ c ∈ calls, c.1.hash? = none)
    (hdistinct : ∀ c ∈ calls, ∀ d ∈ calls, c.1.name ≠ d.1.name →
      m.targetOf c.1 c.2 ≠ m.targetOf d.1 d.2)
    (h : (m.logAll calls).on w = ((m', outcomes), w')) :
    ∀ before item o after, calls = before ++ (item, o) :: after →
      (∀ c ∈ after, c.1.name ≠ item.name) →
      ∃ a, m'.find? item.name = some a ∧
        (a.hash.isSome ↔ ∃ bytes, o.body.or item.body? = some bytes ∧ bytes.size ≠ 0) ∧
        ∀ digest, a.hash = some digest → ∃ path bytes,
          Store.resolve a.targetPath = .ok (.memory, path) ∧
          Store.object? path w' = some bytes ∧ Digest.hex bytes = digest := by
  rintro before item o after rfl hafter
  have hmem : (item, o) ∈ before ++ (item, o) :: after :=
    List.mem_append_right _ List.mem_cons_self
  have hlater : ∀ c ∈ after, c ∈ before ++ (item, o) :: after :=
    fun c hc => List.mem_append_right _ (List.mem_cons_of_mem _ hc)
  have hlength : before.length < outcomes.length := by
    rw [length_outcomes h, List.length_append, List.length_cons]
    omega
  obtain ⟨u₁, v₁, sofar, u₂, v₂, rest, hbefore, hlogs, hrest⟩ :=
    logs_of_logAll h (List.getElem?_eq_getElem hlength)
  have haims := aims_of_logAll hbefore
  have haims₂ := hlogs.aims haims
  obtain ⟨path, hpath⟩ := hmemory _ hmem
  obtain ⟨a, hfind, hhash, htarget⟩ := hlogs.find?_entry
  rw [haims.targetOf_eq] at htarget
  rw [hash_entryOf (by rw [haims.1, hcalc]) (hpreset _ hmem)] at hhash
  refine ⟨a, (find?_of_logAll hafter hrest).trans hfind, ?_, fun digest hdigest => ?_⟩
  · rw [hhash, Option.isSome_map, content?, Option.isSome_iff_exists]
    simp [Option.filter_eq_some_iff]
  · rw [hhash, Option.map_eq_some_iff] at hdigest
    obtain ⟨bytes, hbytes, hdigest⟩ := hdigest
    refine ⟨path, bytes, by rw [htarget, hpath], ?_, hdigest⟩
    have hdb' : ∀ db, u₁.policy.database = some db → db.SparesMemory := by
      rw [haims.1]
      exact hdb
    have hstored : Store.object? path v₂ = some bytes :=
      hlogs.object?_of_content (by rw [haims.targetOf_eq, hpath]) hdb' (hupload _ hmem) hbytes
    rw [← hstored]
    refine object?_of_logAll (by rw [haims₂.1]; exact hdb) (fun c hc => ?_) hrest
    obtain ⟨path', hpath'⟩ := hmemory c (hlater c hc)
    refine ⟨path', by rw [haims₂.targetOf_eq, hpath'], ?_⟩
    rintro rfl
    exact hdistinct c (hlater c hc) _ hmem (hafter c hc) (Store.eq_of_resolve_memory hpath' hpath)

/-- A model is logged again to another place, after a table that has bytes of its own. -/
theorem digests_of_logAll_again :
    ∃ m' outcomes w', (logAll { outputPath := "memory://out" }
        [(.key "model", { body := some "a".toUTF8 }),
          (.artifact (.table "points" (some "1,2".toUTF8) "csv" ["x", "y"]), {}),
          (.key "model", { body := some "b".toUTF8, targetPath := "memory://best" })]).on {} =
        ((m', outcomes), w') ∧
      (∃ a digest path bytes, m'.find? "points" = some a ∧ a.hash = some digest ∧
        Store.resolve a.targetPath = .ok (.memory, path) ∧
        Store.object? path w' = some bytes ∧ Digest.hex bytes = digest) ∧
      ∃ a digest path bytes, m'.find? "model" = some a ∧ a.hash = some digest ∧
        Store.resolve a.targetPath = .ok (.memory, path) ∧
        Store.object? path w' = some bytes ∧ Digest.hex bytes = digest := by
  rcases h : (logAll { outputPath := "memory://out" }
      [(.key "model", { body := some "a".toUTF8 }),
        (.artifact (.table "points" (some "1,2".toUTF8) "csv" ["x", "y"]), {}),
        (.key "model", { body := some "b".toUTF8, targetPath := "memory://best" })]).on {}
    with ⟨⟨m', outcomes⟩, w'⟩
  have hentries := digests_of_logAll { outputPath := "memory://out" } _ {} m' outcomes w'
    rfl nofun (by decide)
    (List.forall_mem_cons.2 ⟨⟨"out/model", rfl⟩, List.forall_mem_cons.2 ⟨⟨"out/points", rfl⟩,
      List.forall_mem_singleton.2 ⟨"best", rfl⟩⟩⟩)
    (by decide) (by decide) h
  refine ⟨m', outcomes, w', rfl, ?_, ?_⟩
  · obtain ⟨a, hfind, hsome, hbytes⟩ := hentries [_] (.artifact _) {} [_] rfl (by decide)
    obtain ⟨digest, hdigest⟩ := Option.isSome_iff_exists.1 (hsome.2 ⟨_, rfl, by decide⟩)
    obtain ⟨path, bytes, hstored⟩ := hbytes digest hdigest
    exact ⟨a, digest, path, bytes, hfind, hdigest, hstored⟩
  · obtain ⟨a, hfind, hsome, hbytes⟩ := hentries [_, _] (.key "model") _ [] rfl (by decide)
    obtain ⟨digest, hdigest⟩ := Option.isSome_iff_exists.1 (hsome.2 ⟨_, rfl, by decide⟩)
    obtain ⟨path, bytes, hstored⟩ := hbytes digest hdigest
    exact ⟨a, digest, path, bytes, hfind, hdigest, hstored⟩

end ArtifactManager

end Experiment
