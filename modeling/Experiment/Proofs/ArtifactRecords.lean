import Experiment.Proofs.Directory

/-!
# Which artifacts share a file

The file of an artifact is named for its key and its tag, with a hyphen between them if there is a
tag. Two artifacts of a project share a file exactly when the tag of one can be read as the rest of
the key of the other. The file holds the summary that was stored last under any of the names it can
be read as; apart from such artifacts a directory keeps summaries by project, key and tag.
-/

namespace Experiment

namespace Database

/-- What the file of an artifact is called, up to the ending. -/
def label (key tag : String) : String :=
  if tag = "" then key else key ++ "-" ++ tag

/-- The second key goes on where the first one ends, and the first tag has the rest. -/
def Continues (key tag key' tag' : String) : Prop :=
  tag ≠ "" ∧ ∃ rest, key' = key ++ "-" ++ rest ∧ tag = label rest tag'

/-- A hyphen between key and tag of one artifact is one in the key of the other. -/
def Blurred (key tag key' tag' : String) : Prop :=
  Continues key tag key' tag' ∨ Continues key' tag' key tag

theorem label_of_tag (key : String) {tag : String} (h : tag ≠ "") :
    label key tag = key ++ "-" ++ tag :=
  if_neg h

theorem label_eq_of_continues {key tag key' tag' : String} (h : Continues key tag key' tag') :
    label key tag = label key' tag' := by
  obtain ⟨htag, rest, rfl, hrest⟩ := h
  rw [label_of_tag key htag, hrest, label, label]
  split <;> simp only [String.append_assoc]

/-- Either both keys end at the same hyphen, or the longer one has more of the label. -/
theorem continues_of_append {key tag key' tag' : String} {xs : List Char} (ht : tag ≠ "")
    (ht' : tag' ≠ "") (hkey : key'.toList = key.toList ++ xs)
    (htag : '-' :: tag.toList = xs ++ '-' :: tag'.toList) :
    (key = key' ∧ tag = tag') ∨ Continues key tag key' tag' := by
  cases xs with
  | nil =>
      rw [List.append_nil] at hkey
      rw [List.nil_append, List.cons.injEq] at htag
      exact .inl ⟨(String.toList_injective hkey).symm, String.toList_injective htag.2⟩
  | cons x xs =>
      rw [List.cons_append, List.cons.injEq] at htag
      obtain ⟨rfl, htag⟩ := htag
      refine .inr ⟨ht, String.ofList xs, String.toList_injective ?_, String.toList_injective ?_⟩
      · simp [hkey]
      · simp [label_of_tag _ ht', htag]

theorem toList_label_of_tag (key : String) {tag : String} (h : tag ≠ "") :
    (label key tag).toList = key.toList ++ '-' :: tag.toList := by
  simp [label_of_tag key h]

theorem continues_of_label {key key' tag' : String} (h : key = label key' tag') (ht' : tag' ≠ "") :
    Continues key' tag' key "" :=
  ⟨ht', tag', h.trans (label_of_tag key' ht'), (if_pos rfl).symm⟩

/-- Labels agree only where a hyphen can be read in two ways. -/
theorem label_eq_iff {key tag key' tag' : String} :
    label key tag = label key' tag' ↔ (key = key' ∧ tag = tag') ∨ Blurred key tag key' tag' := by
  constructor
  · intro h
    by_cases ht : tag = ""
    · subst ht
      by_cases ht' : tag' = ""
      · subst ht'
        exact .inl ⟨h, rfl⟩
      · exact .inr (.inr (continues_of_label h ht'))
    · by_cases ht' : tag' = ""
      · subst ht'
        exact .inr (.inl (continues_of_label h.symm ht))
      · have hlist := congrArg String.toList h
        rw [toList_label_of_tag key ht, toList_label_of_tag key' ht'] at hlist
        obtain ⟨xs, hkey, htag⟩ | ⟨xs, hkey, htag⟩ := List.append_eq_append_iff.1 hlist
        · exact (continues_of_append ht ht' hkey htag).imp id .inl
        · obtain ⟨rfl, rfl⟩ | hc := continues_of_append ht' ht hkey htag
          · exact .inl ⟨rfl, rfl⟩
          · exact .inr (.inr hc)
  · rintro (⟨rfl, rfl⟩ | hc | hc)
    · rfl
    · exact label_eq_of_continues hc
    · exact (label_eq_of_continues hc).symm

theorem not_continues_self (key tag tag' : String) : ¬ Continues key tag key tag' := by
  rintro ⟨-, rest, hkey, -⟩
  have hlength := congrArg (fun s => s.toList.length) hkey
  simp at hlength

end Database

namespace DatabaseCall

/-- What is kept after a call, by directory of the project, key and tag. -/
def keepSummary (kept : String × String × String → Option ArtifactSummary) (c : DatabaseCall) :
    String × String × String → Option ArtifactSummary :=
  match c with
  | .artifact key tag project value => fun name =>
    if name = (Database.projectDir project, key, tag) then some value else kept name
  | _ => kept

/-- A summary is stored under a key and a tag that are plain. -/
def Named : DatabaseCall → Prop
  | .artifact key tag _ _ => Database.Plain key ∧ Database.Plain tag
  | _ => True

/-- The call stores the summary of another artifact in the file of this one. -/
def Blurs (project key tag : String) : DatabaseCall → Prop
  | .artifact key' tag' project' _ =>
    Database.projectDir project' = Database.projectDir project ∧
      Database.Blurred key tag key' tag'
  | _ => False

theorem keepSummary_artifact (kept : String × String × String → Option ArtifactSummary)
    (key tag project : String) (value : ArtifactSummary) (name : String × String × String) :
    (artifact key tag project value).keepSummary kept name =
      if name = (Database.projectDir project, key, tag) then some value else kept name := rfl

end DatabaseCall

namespace Database
variable {root : FilePath} {w w' : World} {project project' key tag key' tag' : String}

/-- The text of the record of an artifact, as bytes. -/
def summaryBytes (summary : ArtifactSummary) : ByteArray :=
  summary.encode.pretty.toUTF8

theorem artifactFile_of_plain (hk : Plain key) (ht : Plain tag) :
    artifactFile key tag = label key tag ++ ".json" := by
  rw [artifactFile, label, sanitize_of_plain hk, sanitize_of_plain ht]
  split <;> rfl

theorem artifactFile_eq_iff (hk : Plain key) (ht : Plain tag) (hk' : Plain key')
    (ht' : Plain tag') :
    artifactFile key tag = artifactFile key' tag' ↔
      (key = key' ∧ tag = tag') ∨ Blurred key tag key' tag' := by
  rw [artifactFile_of_plain hk ht, artifactFile_of_plain hk' ht', String.append_left_inj,
    label_eq_iff]

/-- The files of artifacts lie apart if the names of their directories or their own differ. -/
theorem names_of_place {t : FileTree}
    (h : t.place (artifactPath root project key tag) =
      t.place (artifactPath root project' key' tag')) :
    projectDir project = projectDir project' ∧ artifactFile key tag = artifactFile key' tag' := by
  rw [place_artifactPath, place_artifactPath] at h
  have hlist := List.append_cancel_left h
  simpa only [List.cons.injEq, and_true, true_and] using hlist

theorem artifactPath_eq_iff :
    artifactPath root project key tag = artifactPath root project' key' tag' ↔
      projectDir project = projectDir project' ∧ artifactFile key tag = artifactFile key' tag' := by
  constructor
  · exact fun h => names_of_place (congrArg (FileTree.place {}) h)
  · rintro ⟨hdir, hfile⟩
    rw [artifactPath, artifactPath, hdir, hfile]

theorem artifactPath_of_place {t : FileTree} {c : DatabaseCall} {q : FilePath} {b : ByteArray}
    (hwrite : c.write? root = some (q, b))
    (hplace : t.place q = t.place (artifactPath root project key tag)) :
    q = artifactPath root project key tag := by
  cases c with
  | connect secrets => cases hwrite
  | run uid project' commit value =>
      obtain ⟨rfl, -⟩ := (DatabaseCall.write?_run ..).1 hwrite
      exact absurd hplace.symm (place_artifactPath_ne t root project key tag project' uid _)
  | artifact key' tag' project' value =>
      obtain ⟨rfl, -⟩ := (DatabaseCall.write?_artifact ..).1 hwrite
      exact artifactPath_eq_iff.2 (names_of_place hplace)

theorem held_of_artifactPath_eq (value : ArtifactSummary)
    (h : artifactPath root project' key' tag' = artifactPath root project key tag)
    (kept : Option ByteArray) :
    (DatabaseCall.artifact key' tag' project' value).held root (artifactPath root project key tag)
      kept = some (summaryBytes value) := by
  rw [DatabaseCall.held_of_write ((DatabaseCall.write?_artifact ..).2 ⟨rfl, rfl⟩), if_pos h]
  rfl

theorem held_of_artifactPath_ne (value : ArtifactSummary)
    (h : artifactPath root project' key' tag' ≠ artifactPath root project key tag)
    (kept : Option ByteArray) :
    (DatabaseCall.artifact key' tag' project' value).held root (artifactPath root project key tag)
      kept = kept := by
  rw [DatabaseCall.held_of_write ((DatabaseCall.write?_artifact ..).2 ⟨rfl, rfl⟩), if_neg h]

/-- On the file of an artifact a call that leaves it alone acts as it does on the map. -/
theorem held_artifactPath {c : DatabaseCall} (hc : c.Named) (hk : Plain key) (ht : Plain tag)
    (hb : ¬ c.Blurs project key tag) (kept : String × String × String → Option ArtifactSummary) :
    c.held root (artifactPath root project key tag)
      ((kept (projectDir project, key, tag)).map summaryBytes) =
      (c.keepSummary kept (projectDir project, key, tag)).map summaryBytes := by
  cases c with
  | connect secrets => rfl
  | run uid project' commit value =>
      rw [DatabaseCall.held_of_write ((DatabaseCall.write?_run ..).2 ⟨rfl, rfl⟩), if_neg]
      · rfl
      · intro hpath
        exact place_artifactPath_ne {} root project key tag project' uid _
          (congrArg (FileTree.place {}) hpath.symm)
  | artifact key' tag' project' value =>
      obtain ⟨hk', ht'⟩ := hc
      rw [DatabaseCall.keepSummary_artifact]
      by_cases hname : (projectDir project, key, tag) = (projectDir project', key', tag')
      · obtain ⟨hdir, rfl, rfl⟩ : projectDir project = projectDir project' ∧ key = key' ∧
            tag = tag' := by simpa using hname
        rw [if_pos hname, held_of_artifactPath_eq value (artifactPath_eq_iff.2 ⟨hdir.symm, rfl⟩),
          Option.map_some]
      · rw [if_neg hname, held_of_artifactPath_ne value]
        intro hpath
        obtain ⟨hdir, hfile⟩ := artifactPath_eq_iff.1 hpath.symm
        obtain ⟨rfl, rfl⟩ | hblurred := (artifactFile_eq_iff hk ht hk' ht').1 hfile
        · exact hname (by rw [hdir])
        · exact hb ⟨hdir.symm, hblurred⟩

theorem holds_artifacts {calls : List DatabaseCall} (hfresh : w.files.Fresh root)
    (h : ((directory root).performAll calls).on w = (.ok (), w')) (project key tag : String) :
    w'.files.Holds (artifactPath root project key tag)
      (calls.foldl (DatabaseCall.held root (artifactPath root project key tag)) none) :=
  holds_performAll (fun _ _ _ _ => artifactPath_of_place)
    (hfresh.holds (place_artifactPath w.files root project key tag) (by simp)) h

/-- Two artifacts of a project share their path exactly if a hyphen of one can be read in two ways.
If nothing stored so shares the path of an artifact, then what is read there is what was stored last
under its project, key and tag; storing an artifact that does replaces it. -/
theorem read_artifact_of_performAll (root : FilePath) (calls : List DatabaseCall) (w w' : World)
    (hfresh : w.files.Fresh root) (hc : ∀ c ∈ calls, c.Named)
    (h : ((directory root).performAll calls).on w = (.ok (), w'))
    (project key tag : String) (hk : Plain key) (ht : Plain tag) :
    (∀ key' tag', Plain key' → Plain tag' →
      (artifactPath root project key tag = artifactPath root project key' tag' ↔
        (key = key' ∧ tag = tag') ∨ Blurred key tag key' tag')) ∧
    ((∀ c ∈ calls, ¬ c.Blurs project key tag) → ∀ b,
      w'.files.read (artifactPath root project key tag) = .ok b ↔
        (calls.foldl DatabaseCall.keepSummary (fun _ => none) (projectDir project, key, tag)).map
          summaryBytes = some b) ∧
    ∀ key' tag' value v, Plain key' → Plain tag' → Blurred key tag key' tag' →
      ((directory root).storeArtifact key' value tag' project).on w' = (.ok (), v) →
      v.files.read (artifactPath root project key tag) = .ok (summaryBytes value) := by
  have hpath : ∀ key' tag', Plain key' → Plain tag' →
      (artifactPath root project key tag = artifactPath root project key' tag' ↔
        (key = key' ∧ tag = tag') ∨ Blurred key tag key' tag') := fun key' tag' hk' ht' => by
    rw [artifactPath_eq_iff, artifactFile_eq_iff hk ht hk' ht', and_iff_right rfl]
  have hholds := holds_artifacts hfresh h project key tag
  refine ⟨hpath, fun hb b => ?_, fun key' tag' value v hk' ht' hblurred hv => ?_⟩
  · rw [← DatabaseCall.foldl_held fun c hmem => held_artifactPath (hc c hmem) hk ht (hb c hmem)]
    exact hholds.read_eq b
  · have hnext := holds_perform (c := .artifact key' tag' project value)
      (fun _ _ => artifactPath_of_place) hholds hv
    rw [held_of_artifactPath_eq value ((hpath key' tag' hk' ht').2 (.inr hblurred)).symm] at hnext
    exact hnext

/-- The key `a` with the tag `c` lies apart from the key `a-b`; with the tag `b` it replaces it. -/
theorem read_artifact_of_performAll_hyphen :
    ∃ w', ((directory "db").performAll
        [.artifact "a-b" "" "demo" { key := "a-b" }, .artifact "a" "c" "demo" { key := "a" }]).on {} =
          (.ok (), w') ∧
      w'.files.read (artifactPath "db" "demo" "a-b" "") = .ok (summaryBytes { key := "a-b" }) ∧
      artifactPath "db" "demo" "a-b" "" ≠ artifactPath "db" "demo" "a" "c" ∧
      ∀ v, ((directory "db").storeArtifact "a" {} "b" "demo").on w' = (.ok (), v) →
        v.files.read (artifactPath "db" "demo" "a-b" "") = .ok (summaryBytes {}) := by
  have hok : (((directory "db").performAll
      [.artifact "a-b" "" "demo" { key := "a-b" }, .artifact "a" "c" "demo" { key := "a" }]).on
        {}).1.isOk = true := by
    decide +kernel
  obtain ⟨w', h⟩ := exists_of_isOk hok
  have ha : Plain "a" := by decide
  have hab : Plain "a-b" := by decide
  have hb : Plain "b" := by decide
  have hc : Plain "c" := by decide
  have hnone : Plain "" := by decide
  have hlabel : label "a-b" "" ≠ label "a" "c" := by decide
  have hcalls : ∀ c ∈ [DatabaseCall.artifact "a-b" "" "demo" { key := "a-b" },
      .artifact "a" "c" "demo" { key := "a" }], c.Named ∧ ¬ c.Blurs "demo" "a-b" "" := by
    intro c hmem
    obtain rfl | rfl : c = .artifact "a-b" "" "demo" { key := "a-b" } ∨
        c = .artifact "a" "c" "demo" { key := "a" } := by simpa using hmem
    · exact ⟨⟨hab, hnone⟩, fun hblurs => hblurs.2.elim (not_continues_self _ _ _)
        (not_continues_self _ _ _)⟩
    · exact ⟨⟨ha, hc⟩, fun hblurs => hlabel (label_eq_iff.2 (.inr hblurs.2))⟩
  obtain ⟨hpath, hread, hreplace⟩ := read_artifact_of_performAll "db" _ {} w'
    (FileTree.fresh_empty "db") (fun c hmem => (hcalls c hmem).1) h "demo" "a-b" "" hab hnone
  refine ⟨w', h, ?_, ?_, ?_⟩
  · refine (hread (fun c hmem => (hcalls c hmem).2) _).2 ?_
    rw [List.foldl_cons, List.foldl_cons, List.foldl_nil, DatabaseCall.keepSummary_artifact,
      if_neg (by decide), DatabaseCall.keepSummary_artifact, if_pos rfl, Option.map_some]
  · intro he
    obtain ⟨hkey, -⟩ | hblurred := (hpath "a" "c" ha hc).1 he
    · exact absurd hkey (by decide)
    · exact hlabel (label_eq_iff.2 (.inr hblurred))
  · intro v
    exact hreplace "a" "b" {} v ha hb (.inr ⟨by decide, "b", by decide, by decide⟩)

/-- The second summary is of another artifact, and the first one is lost. -/
theorem loses_artifact_before_hyphen :
    (Plain "a-b" ∧ Plain "" ∧ Plain "a" ∧ Plain "b") ∧
      artifactPath "db" "demo" "a-b" "" = artifactPath "db" "demo" "a" "b" ∧
      ∃ w', ((directory "db").performAll
          [.artifact "a-b" "" "demo" { key := "a-b" }, .artifact "a" "b" "demo" { key := "a" }]).on
            {} = (.ok (), w') ∧
        w'.files.read (artifactPath "db" "demo" "a-b" "") = .ok (summaryBytes { key := "a" }) := by
  have hok : (((directory "db").performAll
      [.artifact "a-b" "" "demo" { key := "a-b" }, .artifact "a" "b" "demo" { key := "a" }]).on
        {}).1.isOk = true := by
    decide +kernel
  obtain ⟨w', h⟩ := exists_of_isOk hok
  have hplain : Plain "a-b" ∧ Plain "" ∧ Plain "a" ∧ Plain "b" := by decide
  have hpath : artifactPath "db" "demo" "a-b" "" = artifactPath "db" "demo" "a" "b" := by decide
  have hholds := holds_artifacts (FileTree.fresh_empty "db") h "demo" "a-b" ""
  rw [List.foldl_cons, List.foldl_cons, List.foldl_nil,
    held_of_artifactPath_eq _ hpath.symm] at hholds
  exact ⟨hplain, hpath, w', h, hholds⟩

end Database

end Experiment
