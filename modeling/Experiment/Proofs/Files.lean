import Experiment.FileTree
import Experiment.Proofs.TextParts

/-!
# What writing files leaves alone

A path leads to one place, step by step. Directories stay where they are, new ones are only made
where there was nothing, and a file that is written changes the place that its path leads to and no
other. So what is read at a path changes only when something is written to its place.
-/

namespace Experiment

namespace FilePath

/-- One component of a path, and no dots. -/
structure IsName (s : String) : Prop where
  nonempty : s ≠ ""
  ne_dot : s ≠ "."
  ne_dots : s ≠ ".."
  flat : '/' ∉ s.toList

instance (s : String) : Decidable (IsName s) :=
  decidable_of_iff (s ≠ "" ∧ s ≠ "." ∧ s ≠ ".." ∧ '/' ∉ s.toList)
    ⟨fun ⟨hn, hd, hds, hf⟩ => ⟨hn, hd, hds, hf⟩, fun h => ⟨h.nonempty, h.ne_dot, h.ne_dots, h.flat⟩⟩

theorem pieces_append (p q : FilePath) : pieces (p ++ "/" ++ q) = pieces p ++ pieces q := by
  rw [pieces, pieces, pieces, ← List.map_append, ← Text.splitOn_append]
  simp

theorem pieces_of_flat {s : String} (h : '/' ∉ s.toList) : pieces s = [s] := by
  rw [pieces, Text.splitOn_of_not_mem h]
  simp

theorem isAbsolute_append {p : FilePath} (h : p ≠ "") (q : FilePath) :
    isAbsolute (p ++ q) = isAbsolute p := by
  rw [isAbsolute, isAbsolute, String.toList_append]
  cases hp : p.toList with
  | nil => exact absurd (String.toList_eq_nil_iff.1 hp) h
  | cons c cs =>
      simp only [Text.startsWith, Text.afterStart?, List.cons_append]
      split <;> rfl

theorem IsName.isAbsolute {s : String} (h : IsName s) : FilePath.isAbsolute s = false := by
  rw [FilePath.isAbsolute]
  cases hs : s.toList with
  | nil => rfl
  | cons c cs =>
      have hc : '/' ≠ c := fun hc => h.flat (hs ▸ hc ▸ List.mem_cons_self)
      simp [Text.startsWith, Text.afterStart?, hc]

theorem isAbsolute_join {base name : FilePath} (h : IsName name) :
    isAbsolute (join base name) = isAbsolute base := by
  rw [join, h.isAbsolute]
  by_cases hb : base = ""
  · subst hb
    simp [h.isAbsolute]
    rfl
  · simp only [Bool.false_eq_true, if_false, hb, decide_false, Bool.false_or]
    split
    · exact isAbsolute_append hb name
    · rw [String.append_assoc]
      exact isAbsolute_append hb _

/-- A base that ends in a slash says no more than one that does not. -/
theorem pieces_join (base : FilePath) {name : FilePath} (h : IsName name) :
    ∃ before, pieces (join base name) = before ++ [name] ∧
      (pieces base = before ++ [""] ∨ pieces base = before ∧ before ≠ []) := by
  rw [join, h.isAbsolute]
  by_cases hb : base = ""
  · subst hb
    exact ⟨[], by simp [pieces_of_flat h.flat], .inl rfl⟩
  · simp only [Bool.false_eq_true, if_false, hb, decide_false, Bool.false_or, decide_eq_true_eq]
    split
    next hlast =>
      obtain ⟨cs, hcs⟩ : ∃ cs, base.toList = cs ++ ['/'] := List.getLast?_eq_some_iff.1 hlast
      have hbase : base = String.ofList cs ++ "/" := String.toList_inj.1 (by simp [hcs])
      have hpieces : pieces base = pieces (String.ofList cs) ++ [""] :=
        calc pieces base = pieces (String.ofList cs ++ "/" ++ "") := by
              rw [String.append_empty, ← hbase]
          _ = pieces (String.ofList cs) ++ [""] := pieces_append _ _
      refine ⟨pieces (String.ofList cs), ?_, .inl hpieces⟩
      rw [hbase, pieces_append, pieces_of_flat h.flat]
    next =>
      refine ⟨pieces base, ?_, .inr ⟨rfl, ?_⟩⟩
      · rw [pieces_append, pieces_of_flat h.flat]
      · rw [pieces, Ne, List.map_eq_nil_iff]
        exact Text.splitOn_ne_nil _ _

theorem components_join {base name : FilePath} (h : IsName name) :
    components (join base name) = components base ++ [.name name] := by
  obtain ⟨before, hjoin, hbase⟩ := pieces_join base h
  have hname : part? name = some (.name name) := by
    delta part?
    simp [h.nonempty, h.ne_dot, h.ne_dots]
  have hparts : (pieces base).filterMap part? = before.filterMap part? := by
    obtain hbase | ⟨hbase, -⟩ := hbase
    · rw [hbase, List.filterMap_append]
      exact List.append_nil _
    · rw [hbase]
  have hhead : ((pieces (join base name)).head? = some ".") ↔ (pieces base).head? = some "." := by
    rw [hjoin]
    cases before with
    | nil =>
        obtain hbase | ⟨-, hne⟩ := hbase
        · simp [hbase, h.ne_dot]
        · exact absurd rfl hne
    | cons s before =>
        obtain hbase | ⟨hbase, -⟩ := hbase <;> simp [hbase]
  simp only [components, isAbsolute_join h, hhead, hparts]
  rw [hjoin, List.filterMap_append, List.filterMap_cons_some hname, List.filterMap_nil]
  split
  · rfl
  · split <;> rfl

end FilePath

namespace FileTree

theorem steps_join {base name : FilePath} (h : FilePath.IsName name) :
    steps (FilePath.join base name) = steps base ++ [name] := by
  obtain ⟨before, hjoin, hbase⟩ := FilePath.pieces_join base h
  rw [steps, steps, hjoin, List.filter_append]
  have hname : [name].filter (fun s => s ≠ "" && s ≠ ".") = [name] := by
    simp [h.nonempty, h.ne_dot]
  obtain hbase | ⟨hbase, -⟩ := hbase
  · rw [hbase, List.filter_append, hname]
    simp
  · rw [hbase, hname]

/-- Where a path leads. -/
def place (t : FileTree) (p : FilePath) : Location :=
  (steps p).foldl step (t.start p)

theorem place_join (t : FileTree) {base name : FilePath} (h : FilePath.IsName name) :
    t.place (FilePath.join base name) = t.place base ++ [name] := by
  rw [place, place, steps_join h, List.foldl_append, start, start, FilePath.isAbsolute_join h]
  exact if_neg h.ne_dots

theorem walk_eq {t : FileTree} {l m : Location} {ss : List String} (h : t.walk l ss = .ok m) :
    m = ss.foldl step l := by
  induction ss generalizing l with
  | nil =>
      cases h
      rfl
  | cons s ss ih =>
      rw [walk] at h
      split at h
      · cases h
      · cases h
      · split at h
        · cases h
        · exact ih h

theorem locate_eq {t : FileTree} {p : FilePath} {l : Location} (h : t.locate p = .ok l) :
    l = t.place p := by
  rw [locate] at h
  split at h
  · cases h
  · split at h
    · cases h
    · exact walk_eq h

theorem find_replaceIn (l m : Location) (e : Entry) (es : List (Location × Entry)) :
    find m (replaceIn l e es) = if l = m then some e else find m es := by
  induction es with
  | nil => rfl
  | cons p es ih =>
      obtain ⟨k, f⟩ := p
      rw [replaceIn]
      split
      next hk =>
        subst hk
        rw [find, find]
        split <;> rfl
      next hk =>
        rw [find, find, ih]
        by_cases hm : k = m
        · subst hm
          rw [if_pos rfl, if_neg (Ne.symm hk), if_pos rfl]
        · rw [if_neg hm, if_neg hm]

theorem entry?_put (t : FileTree) (l m : Location) (e : Entry) :
    FileTree.entry? (t.put l e) m = if m = [] then some .directory else if l = m then some e
      else t.entry? m := by
  rw [ entry?, put, find_replaceIn, entry?]
  split
  · rfl
  · rfl

/-- Nothing is lost: what is there stays, and only directories come where there was nothing. -/
structure Grows (t u : FileTree) : Prop where
  current : u.current = t.current
  entry : ∀ l, u.entry? l = t.entry? l ∨ t.entry? l = none ∧ u.entry? l = some .directory

theorem Grows.refl (t : FileTree) : t.Grows t :=
  ⟨rfl, fun _ => .inl rfl⟩

theorem Grows.trans {t u v : FileTree} (h : t.Grows u) (h' : u.Grows v) : t.Grows v := by
  refine ⟨h'.current.trans h.current, fun l => ?_⟩
  obtain hu | ⟨hn, hd⟩ := h.entry l
  · rw [← hu]
    exact h'.entry l
  · obtain hv | ⟨hn', -⟩ := h'.entry l
    · exact .inr ⟨hn, hv.trans hd⟩
    · rw [hd] at hn'
      cases hn'

theorem grows_put {t : FileTree} {l : Location} (h : t.entry? l = none) :
    t.Grows (t.put l .directory) := by
  refine ⟨rfl, fun m => ?_⟩
  rw [ entry?_put]
  split
  next hm => exact .inl (by rw [hm]; rfl)
  next =>
    split
    next hl => exact .inr ⟨hl ▸ h, rfl⟩
    next => exact .inl rfl

theorem grows_makeAll (t : FileTree) (l : Location) (ss : List String) :
    t.Grows (t.makeAll l ss).1 := by
  induction ss generalizing t l with
  | nil => exact .refl t
  | cons s ss ih =>
      simp only [makeAll]
      split
      · exact ih t _
      · exact .refl t
      next hnone =>
        split
        · exact .refl t
        · exact (grows_put hnone).trans (ih _ _)

theorem grows_createDirectories (t : FileTree) (p : FilePath) :
    t.Grows (t.createDirectories p).1 := by
  rw [createDirectories]
  split
  · exact .refl t
  · exact grows_makeAll t _ _

theorem place_congr {t u : FileTree} (h : u.current = t.current) (p : FilePath) :
    u.place p = t.place p := by
  rw [place, place, start, start, h]

theorem walk_mono {t u : FileTree}
    (h : ∀ l, t.entry? l = some .directory → u.entry? l = some .directory) {l m : Location}
    {ss : List String} (hw : t.walk l ss = .ok m) : u.walk l ss = .ok m := by
  induction ss generalizing l with
  | nil => exact hw
  | cons s ss ih =>
      rw [walk] at hw ⊢
      split at hw
      · cases hw
      · cases hw
      next hdir =>
        rw [h l hdir]
        dsimp only
        split at hw
        · cases hw
        next hshort => rw [if_neg hshort, ih hw]

theorem locate_mono {t u : FileTree} (hc : u.current = t.current)
    (h : ∀ l, t.entry? l = some .directory → u.entry? l = some .directory) {p : FilePath}
    {l : Location} (hl : t.locate p = .ok l) : u.locate p = .ok l := by
  rw [locate] at hl ⊢
  split at hl
  · cases hl
  next hempty =>
    split at hl
    · cases hl
    next hnul =>
      rw [if_neg hempty, if_neg hnul, start, hc]
      exact walk_mono h hl

theorem read_eq_ok {t : FileTree} {p : FilePath} {b : ByteArray} :
    t.read p = .ok b ↔ ∃ l, t.locate p = .ok l ∧ t.entry? l = some (.file b) ∧
      namesDirectory p = false := by
  rw [read, look]
  cases t.locate p with
  | error e => simp
  | ok l =>
      cases he : t.entry? l with
      | none => simp [he]
      | some e =>
          cases e with
          | directory => simp [he]
          | file c => cases namesDirectory p <;> simp [he]

theorem write_eq_ok {t u : FileTree} {p : FilePath} {b : ByteArray} (h : t.write p b = .ok u) :
    t.locate p = .ok (t.place p) ∧ namesDirectory p = false ∧
      t.isDirectoryAt (t.place p) = false ∧ u = t.put (t.place p) (.file b) := by
  rw [write, writable] at h
  cases hl : t.locate p with
  | error e =>
      rw [hl] at h
      cases h
  | ok l =>
      obtain rfl := locate_eq hl
      rw [hl] at h
      dsimp only at h
      by_cases hw : (namesDirectory p || t.isDirectoryAt (t.place p)) = true
      · rw [if_pos hw] at h
        cases h
      · rw [if_neg hw] at h
        cases h
        simp only [Bool.or_eq_true, not_or, Bool.not_eq_true] at hw
        exact ⟨rfl, hw.1, hw.2, rfl⟩

/-- What the file at the place of a path holds, if there is one. -/
def Holds (t : FileTree) (p : FilePath) : Option ByteArray → Prop
  | some b => t.read p = .ok b
  | none => ∀ b, t.entry? (t.place p) ≠ some (.file b)

section Holds
variable {t u : FileTree} {p q : FilePath} {b : ByteArray} {c : Option ByteArray}

theorem Holds.read_eq (h : t.Holds p c) (b : ByteArray) : t.read p = .ok b ↔ c = some b := by
  cases c with
  | some a =>
      rw [show t.read p = .ok a from h]
      simp
  | none =>
      constructor
      · intro hr
        obtain ⟨l, hl, he, -⟩ := read_eq_ok.1 hr
        exact absurd (locate_eq hl ▸ he) (h b)
      · nofun

theorem Holds.mono (hc : u.current = t.current)
    (hd : ∀ l, t.entry? l = some .directory → u.entry? l = some .directory)
    (hf : ∀ a, u.entry? (t.place p) = some (.file a) ↔ t.entry? (t.place p) = some (.file a))
    (h : t.Holds p c) : u.Holds p c := by
  cases c with
  | some a =>
      obtain ⟨l, hl, he, hn⟩ := read_eq_ok.1 (show t.read p = .ok a from h)
      obtain rfl := locate_eq hl
      exact read_eq_ok.2 ⟨_, locate_mono hc hd hl, (hf a).2 he, hn⟩
  | none =>
      intro a ha
      rw [place_congr hc] at ha
      exact h a ((hf a).1 ha)

theorem Holds.grows (hg : t.Grows u) (h : t.Holds p c) : u.Holds p c := by
  refine h.mono hg.current (fun l hl => ?_) fun a => ?_
  · obtain he | ⟨-, hd⟩ := hg.entry l
    · rw [he, hl]
    · exact hd
  · obtain he | ⟨hn, hd⟩ := hg.entry (t.place p)
    · rw [he]
    · rw [hn, hd]
      simp

theorem directory_of_write (h : t.write q b = .ok u) {l : Location}
    (hl : t.entry? l = some .directory) : u.entry? l = some .directory := by
  obtain ⟨-, -, hfile, rfl⟩ := write_eq_ok h
  rw [ entry?_put]
  split
  · rfl
  · rw [if_neg]
    · exact hl
    · rintro rfl
      simp [isDirectoryAt, hl] at hfile

theorem Holds.write_of_ne (h : t.write q b = .ok u) (hne : t.place q ≠ t.place p)
    (hp : t.Holds p c) : u.Holds p c := by
  obtain ⟨-, -, -, hu⟩ := write_eq_ok h
  refine hp.mono (by rw [hu]; rfl) (fun l => directory_of_write h) fun a => ?_
  rw [hu, entry?_put, if_neg hne]
  split
  next hroot => rw [hroot]; simp [ entry?]
  next => rfl

theorem holds_write (h : t.write p b = .ok u) : u.Holds p (some b) := by
  obtain ⟨hl, hn, hfile, hu⟩ := write_eq_ok h
  refine read_eq_ok.2 ⟨t.place p, locate_mono (by rw [hu]; rfl) (fun l => directory_of_write h) hl,
    ?_, hn⟩
  rw [hu, entry?_put, if_neg, if_pos rfl]
  intro hroot
  rw [hroot] at hfile
  cases hfile

end Holds

end FileTree

end Experiment
