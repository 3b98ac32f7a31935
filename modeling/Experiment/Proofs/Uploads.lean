import Experiment.Proofs.Logging

/-!
# When an upload keeps the bytes of its file

A file is not copied onto a path with the same components. Paths with other components may lead to
the same place, and there a copy empties the file before it reads it: the upload succeeds, and the
bytes are lost. Apart from that, and from targets that name directories, what is uploaded is found
at the target and in the file.
-/

namespace Experiment

namespace FilePath
variable {p q : FilePath}

def parts (p : FilePath) : List Component :=
  (pieces p).filterMap part?

theorem components_eq (p : FilePath) :
    components p = (if isAbsolute p then [.root]
      else if (pieces p).head? = some "." then [.here] else []) ++ parts p := by
  rw [components]
  split
  · rfl
  · split <;> rfl

theorem part?_eq_some {s : String} {c : Component} (h : part? s = some c) :
    c ≠ .root ∧ c ≠ .here ∧ c.text = s := by
  rw [part?] at h
  split at h
  · cases h
  · split at h
    next hdots =>
      cases h
      exact ⟨nofun, nofun, hdots.symm⟩
    next =>
      cases h
      exact ⟨nofun, nofun, rfl⟩

theorem parts_eq (p : FilePath) :
    parts p = (components p).filter fun c => c ≠ .root ∧ c ≠ .here := by
  have hparts : (parts p).filter (fun c => c ≠ .root ∧ c ≠ .here) = parts p := by
    refine List.filter_eq_self.2 fun c hc => ?_
    obtain ⟨s, -, hs⟩ := List.mem_filterMap.1 hc
    obtain ⟨hroot, hhere, -⟩ := part?_eq_some hs
    exact decide_eq_true ⟨hroot, hhere⟩
  rw [components_eq, List.filter_append, hparts]
  split
  · rfl
  · split <;> rfl

theorem isAbsolute_eq (p : FilePath) :
    isAbsolute p = decide ((components p).head? = some .root) := by
  rw [components_eq]
  cases h : isAbsolute p with
  | true => rfl
  | false =>
      refine (decide_eq_false fun hroot => ?_).symm
      rw [if_neg Bool.false_ne_true] at hroot
      split at hroot
      · cases hroot
      · rw [List.nil_append] at hroot
        obtain ⟨s, -, hs⟩ := List.mem_filterMap.1 (List.mem_of_mem_head? hroot)
        exact (part?_eq_some hs).1 rfl

theorem part?_eq_none {s : String} : part? s = none ↔ s = "" ∨ s = "." := by
  rw [part?]
  split
  next h => simpa using h
  next h =>
    refine ⟨fun hnone => ?_, fun hs => absurd (by simpa using hs) h⟩
    split at hnone <;> cases hnone

theorem steps_eq (p : FilePath) : FileTree.steps p = (parts p).map Component.text := by
  rw [FileTree.steps, parts]
  induction pieces p with
  | nil => rfl
  | cons s rest ih =>
      cases hs : part? s with
      | none =>
          rw [List.filterMap_cons_none hs, ← ih, List.filter_cons_of_neg]
          obtain rfl | rfl := part?_eq_none.1 hs <;> simp
      | some c =>
          have hne : ¬ (s = "" ∨ s = ".") := fun h => by
            rw [part?_eq_none.2 h] at hs
            cases hs
          rw [List.filterMap_cons_some hs, List.map_cons, (part?_eq_some hs).2.2, ← ih,
            List.filter_cons_of_pos]
          simpa [not_or] using hne

theorem pieces_of_cons {c : Char} {cs : List Char} (hp : p.toList = c :: cs) (hc : c ≠ '/') :
    ∃ s rest, pieces p = s :: rest ∧ s ≠ "" := by
  rw [pieces, hp, Text.splitOn, if_neg hc]
  split
  · exact ⟨_, _, rfl, by simp [← String.toList_inj]⟩
  · exact ⟨_, _, rfl, by simp [← String.toList_inj]⟩

theorem eq_empty_of_components (h : components p = []) : p = "" := by
  cases hp : p.toList with
  | nil => exact String.toList_eq_nil_iff.1 hp
  | cons c cs =>
      exfalso
      rw [components_eq, List.append_eq_nil_iff] at h
      obtain ⟨hstart, hparts⟩ := h
      by_cases hc : c = '/'
      · have habsolute : isAbsolute p = true := by
          rw [isAbsolute, hp, hc]
          rfl
        rw [habsolute] at hstart
        cases hstart
      · obtain ⟨s, rest, hpieces, hs⟩ := pieces_of_cons hp hc
        rw [hpieces] at hstart
        rw [parts, hpieces] at hparts
        cases hpart : part? s with
        | some c => rw [List.filterMap_cons_some hpart] at hparts; cases hparts
        | none =>
            obtain rfl := (part?_eq_none.1 hpart).resolve_left hs
            split at hstart <;> cases hstart

theorem mem_splitOn {mark c : Char} (hc : c ≠ mark) (cs : List Char) :
    c ∈ cs ↔ ∃ part ∈ Text.splitOn mark cs, c ∈ part := by
  induction cs with
  | nil => simp [Text.splitOn]
  | cons d cs ih =>
      rw [Text.splitOn, List.mem_cons, ih]
      split
      next hd => simp [hd, hc]
      next =>
        cases hsplit : Text.splitOn mark cs with
        | nil => exact absurd hsplit (Text.splitOn_ne_nil mark cs)
        | cons part rest => simp [or_assoc]

theorem contains_eq (p : FilePath) :
    p.toList.contains '\x00' = (FileTree.steps p).any fun s => s.toList.contains '\x00' := by
  have hmark : '\x00' ≠ '/' := by decide
  rw [Bool.eq_iff_iff, List.contains_iff_mem, List.any_eq_true, mem_splitOn hmark]
  simp only [FileTree.steps, pieces, List.mem_filter, List.mem_map]
  constructor
  · rintro ⟨part, hpart, hmem⟩
    refine ⟨String.ofList part, ⟨⟨part, hpart, rfl⟩, ?_⟩, by simpa using hmem⟩
    rw [Bool.and_eq_true, decide_eq_true_eq, decide_eq_true_eq, Ne, Ne, ← String.toList_inj,
      ← String.toList_inj, String.toList_ofList]
    constructor
    · rintro rfl
      cases hmem
    · rintro rfl
      exact absurd hmem (by decide)
  · rintro ⟨s, ⟨⟨part, hpart, rfl⟩, -⟩, hmem⟩
    exact ⟨part, hpart, by simpa using hmem⟩

end FilePath

namespace FileTree
variable {t u : FileTree} {p q : FilePath} {b : ByteArray}

theorem locate_of_same (h : FilePath.same p q = true) (t : FileTree) :
    t.locate p = t.locate q ∧ t.place p = t.place q := by
  have hc : FilePath.components p = FilePath.components q := of_decide_eq_true h
  have hsteps : steps p = steps q := by
    rw [FilePath.steps_eq, FilePath.steps_eq, FilePath.parts_eq, FilePath.parts_eq, hc]
  have hstart : t.start p = t.start q := by
    rw [start, start, FilePath.isAbsolute_eq, FilePath.isAbsolute_eq, hc]
  have hempty : p = "" ↔ q = "" := by
    constructor
    · rintro rfl
      exact FilePath.eq_empty_of_components hc.symm
    · rintro rfl
      exact FilePath.eq_empty_of_components hc
  constructor
  · rw [locate, locate, FilePath.contains_eq, FilePath.contains_eq q, hsteps, hstart]
    simp only [hempty]
  · rw [place, place, hsteps, hstart]

theorem read_of_same (h : FilePath.same p q = true) (hq : t.read q = .ok b) :
    t.read p = .ok b ↔ namesDirectory p = false := by
  obtain ⟨l, hl, he, -⟩ := read_eq_ok.1 hq
  rw [read_eq_ok, (locate_of_same h t).1]
  constructor
  · rintro ⟨_, -, -, hnames⟩
    exact hnames
  · exact fun hnames => ⟨l, hl, he, hnames⟩

/-- Whatever path a file is written under, it is read at its place. -/
theorem read_of_write_of_place (h : t.write q b = .ok u) (hplace : t.place q = t.place p)
    {c : ByteArray} (hp : t.read p = .ok c) : u.read p = .ok b := by
  obtain ⟨l, hl, -, hnames⟩ := read_eq_ok.1 hp
  obtain ⟨l', hl', he', -⟩ := read_eq_ok.1 (show u.read q = .ok b from holds_write h)
  have hcurrent : u.current = t.current := by
    rw [(write_eq_ok h).2.2.2]
    rfl
  have hlocate : u.locate p = .ok l := locate_mono hcurrent (fun _ => directory_of_write h) hl
  refine read_eq_ok.2 ⟨l, hlocate, ?_, hnames⟩
  rw [locate_eq hlocate, place_congr hcurrent, ← hplace, ← place_congr hcurrent,
    ← locate_eq hl', he']

theorem isFile_of_read (h : t.read p = .ok b) : t.isFile p = true := by
  rw [read] at h
  rw [isFile]
  split at h
  · cases h
  · cases h
  next hlook => rw [hlook]

theorem writable_eq {l : Location} (h : t.writable p = .ok l) : l = t.place p := by
  rw [writable] at h
  split at h
  · cases h
  next hl =>
    split at h
    · cases h
    · cases h
      exact locate_eq hl

theorem writable_of_read (h : t.read p = .ok b) : t.writable p = .ok (t.place p) := by
  obtain ⟨l, hl, he, hnames⟩ := read_eq_ok.1 h
  obtain rfl := locate_eq hl
  rw [writable, hl]
  simp [hnames, isDirectoryAt, he]

/-- A copy empties the target, reads the source and writes what it has read. -/
theorem copy_eq_ok {source target : FilePath} (h : t.copy source target = .ok u) :
    ∃ emptied bytes, t.write target ByteArray.empty = .ok emptied ∧
      emptied.read source = .ok bytes ∧ emptied.write target bytes = .ok u := by
  rw [copy] at h
  split at h
  · cases h
  · cases h
  · split at h
    · cases h
    next l hl =>
      have hempty : t.write target ByteArray.empty = .ok (t.put l (.file ByteArray.empty)) := by
        rw [write, hl]
      have hplace : FileTree.place (t.put l (.file ByteArray.empty)) target = l :=
        (place_congr rfl target).trans (writable_eq hl).symm
      dsimp only at h
      split at h
      · cases h
      next bytes hread =>
        cases h
        refine ⟨_, bytes, hempty, hread, ?_⟩
        rw [write, writable_of_read (show _ = Except.ok ByteArray.empty from holds_write hempty),
          hplace]

/-- The target and the source have the bytes of the source, or none if they are one file. -/
theorem read_of_copy {source target : FilePath} (h : t.copy source target = .ok u)
    (hb : t.read source = .ok b) :
    ∃ c, u.read target = .ok c ∧ u.read source = .ok c ∧
      c = if t.place target = t.place source then ByteArray.empty else b := by
  obtain ⟨emptied, c, hempty, hread, hwrite⟩ := copy_eq_ok h
  have hcurrent : emptied.current = t.current := by
    rw [(write_eq_ok hempty).2.2.2]
    rfl
  refine ⟨c, holds_write hwrite, ?_, ?_⟩
  · by_cases hplace : t.place target = t.place source
    · refine read_of_write_of_place hwrite ?_ hread
      rw [place_congr hcurrent, place_congr hcurrent, hplace]
    · refine Holds.write_of_ne hwrite ?_ (show emptied.Holds source (some c) from hread)
      rwa [place_congr hcurrent, place_congr hcurrent]
  · split
    next hplace =>
      rw [read_of_write_of_place hempty hplace hb] at hread
      cases hread
      rfl
    next hplace =>
      have hkept : emptied.Holds source (some b) := Holds.write_of_ne hempty hplace hb
      cases hkept.symm.trans hread
      rfl

end FileTree

namespace Store
variable {backend : Backend} {path : String} {source : FilePath} {w w' : World} {b : ByteArray}

/-- A successful upload to a path of the same components makes directories only. -/
theorem read_of_upload_same (hsame : FilePath.same path source = true)
    (hb : w.files.read source = .ok b) (h : (upload .file path source).on w = (.ok (), w')) :
    w'.files.read source = .ok b ∧
      (w'.files.read path = .ok b ↔ FileTree.namesDirectory path = false) := by
  obtain ⟨_, v, hparent, hrest⟩ := Attempt.on_bind_eq_ok.1 (Attempt.on_mapError_eq_ok.1 h)
  rw [if_pos hsame] at hrest
  cases hrest
  have hkept : w'.files.Holds source (some b) :=
    FileTree.Holds.grows (files_of_ensureParent hparent) hb
  exact ⟨hkept, FileTree.read_of_same hsame hkept⟩

theorem read_of_upload_other (hsame : FilePath.same path source = false)
    (hb : w.files.read source = .ok b) (h : (upload .file path source).on w = (.ok (), w')) :
    ∃ c, w'.files.read path = .ok c ∧ w'.files.read source = .ok c ∧
      c = if w.files.place path = w.files.place source then ByteArray.empty else b := by
  obtain ⟨_, v, hparent, hrest⟩ := Attempt.on_bind_eq_ok.1 (Attempt.on_mapError_eq_ok.1 h)
  rw [if_neg (by rw [hsame]; exact Bool.false_ne_true)] at hrest
  have hgrows := files_of_ensureParent hparent
  have hkept : v.files.Holds source (some b) := FileTree.Holds.grows hgrows hb
  rw [← FileTree.place_congr hgrows.current path, ← FileTree.place_congr hgrows.current source]
  exact FileTree.read_of_copy (Database.files_of_changeFiles hrest) hkept

theorem read_of_upload_memory (hb : w.files.read source = .ok b)
    (h : (upload .memory path source).on w = (.ok (), w')) :
    (fetch .memory path).on w' = (.ok b, w') ∧ w'.files = w.files := by
  obtain ⟨c, v, hread, hput⟩ := Attempt.on_bind_eq_ok.1 h
  have hread := Attempt.on_mapError_eq_ok.1 hread
  rw [on_readFile, hb] at hread
  cases hread
  refine ⟨fetch_of_put (b := .memory) hput, ?_⟩
  cases hput
  rfl

/-- The path has the components of the source, or it leads to another place; or there is nothing to
lose. -/
def Spares (t : FileTree) (path : String) (source : FilePath) (b : ByteArray) : Prop :=
  FilePath.same path source = true ∨ t.place path ≠ t.place source ∨ b = ByteArray.empty

theorem copied_iff {l l' : Location} {c : ByteArray}
    (hc : c = if l = l' then ByteArray.empty else b) : c = b ↔ l ≠ l' ∨ b = ByteArray.empty := by
  by_cases hl : l = l'
  · rw [hc, if_pos hl]
    exact ⟨fun h => .inr h.symm, fun h => (h.resolve_left (not_not_intro hl)).symm⟩
  · rw [hc, if_neg hl]
    exact ⟨fun _ => .inl hl, fun _ => rfl⟩

theorem read_source_iff (hb : w.files.read source = .ok b)
    (h : (upload backend path source).on w = (.ok (), w')) :
    w'.files.read source = .ok b ↔ (backend = .file → Spares w.files path source b) := by
  cases backend with
  | memory =>
      rw [(read_of_upload_memory hb h).2]
      exact ⟨fun _ => nofun, fun _ => hb⟩
  | file =>
      rw [imp_iff_right rfl, Spares]
      cases hsame : FilePath.same path source with
      | true => simp [(read_of_upload_same hsame hb h).1]
      | false =>
          obtain ⟨c, -, hsource, hc⟩ := read_of_upload_other hsame hb h
          rw [hsource, Except.ok.injEq, copied_iff hc]
          simp

theorem fetch_target_iff (hb : w.files.read source = .ok b)
    (h : (upload backend path source).on w = (.ok (), w')) :
    ((fetch backend path).on w').1 = .ok b ↔ (backend = .file →
      Spares w.files path source b ∧
        (FilePath.same path source = true → FileTree.namesDirectory path = false)) := by
  cases backend with
  | memory =>
      rw [(read_of_upload_memory hb h).1]
      simp
  | file =>
      have hok : ∀ x : Except OsError ByteArray,
          x.mapError (StoreError.ofOs path) = .ok b ↔ x = .ok b := fun x => by
        cases x with
        | error e => exact ⟨fun h => (by cases h), fun h => (by cases h)⟩
        | ok a => exact ⟨fun h => (by cases h; rfl), fun h => (by cases h; rfl)⟩
      rw [imp_iff_right rfl, Spares, on_fetch_file, hok]
      cases hsame : FilePath.same path source with
      | true => simp [(read_of_upload_same hsame hb h).2]
      | false =>
          obtain ⟨c, htarget, -, hc⟩ := read_of_upload_other hsame hb h
          rw [htarget, Except.ok.injEq, copied_iff hc]
          simp

end Store

namespace ArtifactManager

theorem keeps_report (m : ArtifactManager) (db : Database) (a : Artifact) {σ : Type}
    {view : World → σ} (hview : ∀ w e, view (World.noting w e) = view w)
    (hdb : ∀ key summary tag project, (db.keepArtifact key summary tag project).Keeps view) :
    (m.report db a).Keeps view :=
  .mapError _ (.bind (hdb _ _ _ _) fun _ w => hview w _)

/-- An upload that succeeds keeps the bytes of a file and puts them at the target exactly if the
target is in memory, leads to another place than the file, or has the same components as the path of
the file without naming a directory; a file without bytes has none to lose. So a log without a body
keeps the file it publishes unless its target leads there by other components. -/
theorem upload_keeps_bytes (url path : String) (backend : Backend) (source : FilePath) (w : World)
    (b : ByteArray) (hr : Store.resolve url = .ok (backend, path))
    (hb : w.files.read source = .ok b) :
    (∀ w', (Store.upload backend path source).on w = (.ok (), w') →
      (((Store.fetch backend path).on w').1 = .ok b ∧ w'.files.read source = .ok b ↔
        (backend = .file → Store.Spares w.files path source b ∧
          (FilePath.same path source = true → FileTree.namesDirectory path = false)))) ∧
    ∀ m : ArtifactManager, ∀ item o m' w', o.upload = true →
      payload? (requestOf item o).1 o = none → localSource (m.entryOf item o) = source →
      (m.entryOf item o).targetPath = url →
      (∀ db, m.policy.database = some db → ∀ key summary tag project,
        (db.keepArtifact key summary tag project).Keeps fun w => w.files.read source) →
      (m.log item o).on w = ((m', .ok ()), w') →
      (w'.files.read source = .ok b ↔
        (backend = .file → Store.Spares w.files path source b)) := by
  constructor
  · intro w' h
    rw [Store.fetch_target_iff hb h, Store.read_source_iff hb h]
    exact ⟨fun hboth => hboth.1, fun hkeeps => ⟨hkeeps, fun hfile => (hkeeps hfile).1⟩⟩
  · rintro m item o m' w' hupload hpayload rfl rfl hdb h
    have hsend : ∀ v, (m.send item o).on w = (.ok (), v) →
        (Store.upload backend path (localSource (m.entryOf item o))).on w = (.ok (), v) :=
      fun v hv => by
        rw [send, if_pos hupload, hpayload, on_upload hr, if_pos (FileTree.isFile_of_read hb)] at hv
        exact Attempt.on_mapError_eq_ok.1 hv
    cases logs h with
    | unrecorded _ sent => exact Store.read_source_iff hb (hsend _ sent)
    | @recorded db r v w' hsome sent reported =>
        rw [← Store.read_source_iff hb (hsend v sent)]
        have hkeeps := keeps_report m db (m.withLineage (m.entryOf item o))
          (fun _ _ => rfl) (hdb db hsome)
        rw [← hkeeps.of_on reported]

/-- The file `a` goes to `out/b` by an upload, and by a log to which nothing else is told. -/
theorem upload_keeps_bytes_elsewhere :
    let w : World := { files := { entries := [(["a"], .file "data".toUTF8)] } }
    ∃ w', (Store.upload .file "out/b" "a").on w = (.ok (), w') ∧
      ((Store.fetch .file "out/b").on w').1 = .ok "data".toUTF8 ∧
      w'.files.read "a" = .ok "data".toUTF8 ∧
      ∃ m' v, (log {} (.key "a") { targetPath := "file://out/b" }).on w = ((m', .ok ()), v) ∧
        v.files.read "a" = .ok "data".toUTF8 := by
  intro w
  have hspares : Store.Spares w.files "out/b" "a" "data".toUTF8 := .inr (.inl (by decide))
  have hother : FilePath.same "out/b" "a" = true → FileTree.namesDirectory "out/b" = false := by
    decide
  obtain ⟨hupload, hlog⟩ := upload_keeps_bytes "file://out/b" "out/b" .file "a" w "data".toUTF8
    (by rfl) (by rfl)
  have hboth := (hupload _ rfl).2 fun _ => ⟨hspares, hother⟩
  exact ⟨_, rfl, hboth.1, hboth.2, _, _, rfl,
    (hlog {} (.key "a") { targetPath := "file://out/b" } _ _ rfl rfl rfl rfl nofun rfl).2
      fun _ => hspares⟩

/-- The leading dot is a component, so the file is copied onto itself. -/
theorem upload_empties_file :
    let w : World := { files := { entries := [(["a"], .file "data".toUTF8)] } }
    w.files.read "a" = .ok "data".toUTF8 ∧ "data".toUTF8 ≠ ByteArray.empty ∧
      Store.resolve "./a" = .ok (.file, "./a") ∧
      ∃ w', (Store.upload .file "./a" "a").on w = (.ok (), w') ∧
        ((Store.fetch .file "./a").on w').1 = .ok ByteArray.empty ∧
        w'.files.read "a" = .ok ByteArray.empty ∧
        ∃ m' v, (log {} (.key "a") { targetPath := "./a" }).on w = ((m', .ok ()), v) ∧
          v.files.read "a" = .ok ByteArray.empty :=
  ⟨rfl, by decide, rfl, _, rfl, rfl, rfl, _, _, rfl, rfl⟩

end ArtifactManager

end Experiment
