import Experiment.Database
import Experiment.Proofs.Files

/-!
# The names of records

A plain name is kept as it is in the name of a file; any other one becomes a single name too. So a
record lies in a directory of its own kind and project under the root, whatever its names are. The file
of a run is split at its last hyphen, since the number of an iteration has none. The file of an
artifact is not: a hyphen may stand between key and tag, in the key or in the tag.
-/

namespace Experiment.Database

/-- A text that means nothing else in a path than itself. -/
structure Plain (s : String) : Prop where
  no_slash : '/' ∉ s.toList
  no_backslash : '\\' ∉ s.toList
  ne_dot : s ≠ "."
  ne_dots : s ≠ ".."

instance (s : String) : Decidable (Plain s) :=
  decidable_of_iff ('/' ∉ s.toList ∧ '\\' ∉ s.toList ∧ s ≠ "." ∧ s ≠ "..")
    ⟨fun ⟨hs, hb, hd, hds⟩ => ⟨hs, hb, hd, hds⟩,
      fun h => ⟨h.no_slash, h.no_backslash, h.ne_dot, h.ne_dots⟩⟩

/-- One component of a path, whichever slash separates components. -/
structure IsComponent (s : String) : Prop extends Plain s where
  nonempty : s ≠ ""

theorem IsComponent.isName {s : String} (h : IsComponent s) : FilePath.IsName s :=
  ⟨h.nonempty, h.ne_dot, h.ne_dots, h.no_slash⟩

theorem sanitizeChar_ne (c : Char) : sanitizeChar c ≠ '/' ∧ sanitizeChar c ≠ '\\' := by
  rw [sanitizeChar]
  split
  · decide
  next h =>
    simp only [Bool.or_eq_true, decide_eq_true_eq, not_or] at h
    exact h

theorem sanitize_of_plain {s : String} (h : Plain s) : sanitize s = s := by
  have hmap : s.toList.map sanitizeChar = s.toList := by
    refine (List.map_congr_left fun c hc => if_neg ?_).trans (List.map_id' s.toList)
    simp only [Bool.or_eq_true, decide_eq_true_eq, not_or]
    exact ⟨fun he => h.no_slash (he ▸ hc), fun he => h.no_backslash (he ▸ hc)⟩
  simp only [sanitize, hmap, String.ofList_toList, h.ne_dot, h.ne_dots, if_false]

theorem plain_sanitize (s : String) : Plain (sanitize s) := by
  have hflat : ∀ c ∈ s.toList.map sanitizeChar, c ≠ '/' ∧ c ≠ '\\' :=
    List.forall_mem_map.2 fun c _ => sanitizeChar_ne c
  simp only [sanitize]
  split
  · decide
  · split
    · decide
    · refine ⟨fun h => ?_, fun h => ?_, ‹_›, ‹_›⟩
      · rw [String.toList_ofList] at h
        exact (hflat _ h).1 rfl
      · rw [String.toList_ofList] at h
        exact (hflat _ h).2 rfl

theorem sanitize_ne_empty {s : String} (h : s ≠ "") : sanitize s ≠ "" := by
  simp only [sanitize]
  split
  · decide
  · split
    · decide
    · intro he
      have hlist := congrArg String.toList he
      simp at hlist
      exact h hlist

theorem isComponent_projectDir (project : String) : IsComponent (projectDir project) := by
  rw [projectDir]
  split
  · exact ⟨by decide, by decide⟩
  next h => exact ⟨plain_sanitize project, sanitize_ne_empty h⟩

/-- No slash of either kind. -/
structure Flat (s : String) : Prop where
  no_slash : '/' ∉ s.toList
  no_backslash : '\\' ∉ s.toList

theorem Plain.flat {s : String} (h : Plain s) : Flat s :=
  ⟨h.no_slash, h.no_backslash⟩

theorem Flat.append {s t : String} (hs : Flat s) (ht : Flat t) : Flat (s ++ t) := by
  refine ⟨?_, ?_⟩
  · rw [String.toList_append, List.mem_append, not_or]
    exact ⟨hs.no_slash, ht.no_slash⟩
  · rw [String.toList_append, List.mem_append, not_or]
    exact ⟨hs.no_backslash, ht.no_backslash⟩

/-- Whatever stands before the ending, it is no dot. -/
theorem isComponent_json {s : String} (h : Flat s) : IsComponent (s ++ ".json") := by
  have hflat : Flat (s ++ ".json") := h.append ⟨by decide, by decide⟩
  have hne : ∀ t : String, t.toList.length < 5 → s ++ ".json" ≠ t := by
    rintro t ht rfl
    simp only [String.toList_append, List.length_append] at ht
    have hjson : ".json".toList.length = 5 := rfl
    omega
  exact ⟨⟨hflat.no_slash, hflat.no_backslash, hne "." (by decide), hne ".." (by decide)⟩,
    hne "" (by decide)⟩

theorem flat_toString (n : Nat) : Flat (toString n) :=
  ⟨Text.mark_not_mem_digits rfl n, Text.mark_not_mem_digits rfl n⟩

theorem isComponent_runFile (uid : String) (iteration : Nat) :
    IsComponent (runFile uid iteration) := by
  have huid : Flat (sanitize uid ++ "-") :=
    (plain_sanitize uid).flat.append ⟨by decide, by decide⟩
  exact isComponent_json (huid.append (flat_toString iteration))

theorem isComponent_artifactFile (key tag : String) : IsComponent (artifactFile key tag) := by
  have hkey : Flat (sanitize key) := (plain_sanitize key).flat
  rw [artifactFile]
  split
  · exact isComponent_json hkey
  · have hmark : Flat (sanitize key ++ "-") := hkey.append ⟨by decide, by decide⟩
    exact isComponent_json (hmark.append (plain_sanitize tag).flat)

/-- What follows the last mark tells what stands before it. -/
theorem append_mark_inj {mark : Char} {as bs cs ds : List Char} (hb : mark ∉ bs) (hd : mark ∉ ds)
    (h : as ++ mark :: bs = cs ++ mark :: ds) : as = cs ∧ bs = ds := by
  obtain ⟨xs, hxs, hrest⟩ | ⟨xs, hxs, hrest⟩ := List.append_eq_append_iff.1 h
  · cases xs with
    | nil =>
        cases hrest
        exact ⟨(List.append_nil as ▸ hxs).symm, rfl⟩
    | cons x xs =>
        cases hrest
        exact absurd (List.mem_append_right xs List.mem_cons_self) hb
  · cases xs with
    | nil =>
        cases hrest
        exact ⟨List.append_nil cs ▸ hxs, rfl⟩
    | cons x xs =>
        cases hrest
        exact absurd (List.mem_append_right xs List.mem_cons_self) hd

theorem runFile_injective {uid uid' : String} {iteration iteration' : Nat} (hu : Plain uid)
    (hu' : Plain uid') (h : runFile uid iteration = runFile uid' iteration') :
    uid = uid' ∧ iteration = iteration' := by
  rw [runFile, runFile, sanitize_of_plain hu, sanitize_of_plain hu'] at h
  have hlist := congrArg String.toList h
  simp only [String.toList_append] at hlist
  have hlist : uid.toList ++ '-' :: (toString iteration).toList =
      uid'.toList ++ '-' :: (toString iteration').toList := by
    simpa using List.append_cancel_right hlist
  obtain ⟨huid, hdigits⟩ := append_mark_inj (Text.mark_not_mem_digits rfl iteration)
    (Text.mark_not_mem_digits rfl iteration') hlist
  refine ⟨String.toList_injective huid, ?_⟩
  rw [Nat.toString_eq_repr, Nat.toString_eq_repr, Nat.toList_repr, Nat.toList_repr] at hdigits
  rw [← Nat.ofDigitChars_ten_toDigits (n := iteration), hdigits, Nat.ofDigitChars_ten_toDigits]

/-- The path has these components after those of the root, and leads to the place of that name under
that of the root, whatever files there are. -/
structure Under (root path : FilePath) (names : List String) : Prop where
  components : FilePath.components path = FilePath.components root ++ names.map .name
  place : ∀ t : FileTree, t.place path = t.place root ++ names

/-- Three components are joined to the root one by one, and none of them is absolute. -/
theorem under_join {root : FilePath} {kind dir file : String} (hk : FilePath.IsName kind)
    (hd : FilePath.IsName dir) (hf : FilePath.IsName file) :
    Under root (FilePath.join (FilePath.join (FilePath.join root kind) dir) file)
      [kind, dir, file] where
  components := by
    rw [FilePath.components_join hf, FilePath.components_join hd, FilePath.components_join hk,
      List.append_assoc, List.append_assoc]
    rfl
  place t := by
    rw [t.place_join hf, t.place_join hd, t.place_join hk, List.append_assoc, List.append_assoc]
    rfl

theorem under_runPath (root : FilePath) (project uid : String) (iteration : Nat) :
    Under root (runPath root project uid iteration)
      ["runs", projectDir project, runFile uid iteration] :=
  under_join (by decide) (isComponent_projectDir project).isName
    (isComponent_runFile uid iteration).isName

theorem under_artifactPath (root : FilePath) (project key tag : String) :
    Under root (artifactPath root project key tag)
      ["artifacts", projectDir project, artifactFile key tag] :=
  under_join (by decide) (isComponent_projectDir project).isName
    (isComponent_artifactFile key tag).isName

/-- No name of a project, a run or an artifact leads a record out of its directory under the root:
each becomes one component of its path. -/
theorem records_stay_under_root (root : FilePath) (project uid key tag : String) (iteration : Nat) :
    (IsComponent (projectDir project) ∧ IsComponent (runFile uid iteration) ∧
      IsComponent (artifactFile key tag)) ∧
    Under root (runPath root project uid iteration)
      ["runs", projectDir project, runFile uid iteration] ∧
    Under root (artifactPath root project key tag)
      ["artifacts", projectDir project, artifactFile key tag] :=
  ⟨⟨isComponent_projectDir project, isComponent_runFile uid iteration,
    isComponent_artifactFile key tag⟩,
    under_runPath root project uid iteration, under_artifactPath root project key tag⟩

theorem place_runPath (t : FileTree) (root : FilePath) (project uid : String) (iteration : Nat) :
    t.place (runPath root project uid iteration) =
      t.place root ++ ["runs", projectDir project, runFile uid iteration] :=
  (under_runPath root project uid iteration).place t

theorem place_artifactPath (t : FileTree) (root : FilePath) (project key tag : String) :
    t.place (artifactPath root project key tag) =
      t.place root ++ ["artifacts", projectDir project, artifactFile key tag] :=
  (under_artifactPath root project key tag).place t

theorem place_artifactPath_ne (t : FileTree) (root : FilePath) (project key tag : String)
    (project' uid : String) (iteration : Nat) :
    t.place (artifactPath root project key tag) ≠
      t.place (runPath root project' uid iteration) := by
  rw [place_artifactPath, place_runPath]
  intro h
  have hdir := (List.cons.inj (List.append_cancel_left h)).1
  exact absurd hdir (by decide)

theorem projectDir_of_plain {project : String} (h : Plain project) (hn : project ≠ "") :
    projectDir project = project := by
  rw [projectDir, if_neg hn, sanitize_of_plain h]

theorem place_runPath_inj {t : FileTree} {root : FilePath} {project project' uid uid' : String}
    {iteration iteration' : Nat} (hp : Plain project ∧ project ≠ "")
    (hp' : Plain project' ∧ project' ≠ "") (hu : Plain uid) (hu' : Plain uid')
    (h : t.place (runPath root project uid iteration) =
      t.place (runPath root project' uid' iteration')) :
    project = project' ∧ uid = uid' ∧ iteration = iteration' := by
  rw [place_runPath, place_runPath, projectDir_of_plain hp.1 hp.2,
    projectDir_of_plain hp'.1 hp'.2] at h
  have hlist := List.append_cancel_left h
  simp only [List.cons.injEq, and_true, true_and] at hlist
  exact ⟨hlist.1, runFile_injective hu hu' hlist.2⟩

end Experiment.Database
