import Experiment.Proofs.Files

/-!
# What is listed is found

A directory lists its entries by their names. A name that is joined to the path of the directory
leads to the entry that is listed by it, and the stem and the extension of the joined path are those
of the name.
-/

namespace Experiment

namespace Text

theorem splitFirst?_eq_some {mark : Char} {cs before after : List Char} :
    splitFirst? mark cs = some (before, after) ↔ mark ∉ before ∧ cs = before ++ mark :: after := by
  constructor
  · intro h
    induction cs generalizing before with
    | nil => cases h
    | cons c cs ih =>
        rw [splitFirst?] at h
        by_cases hc : c = mark
        · rw [if_pos hc] at h
          cases h
          exact ⟨List.not_mem_nil, congrArg (· :: _) hc⟩
        · rw [if_neg hc] at h
          obtain ⟨⟨rest, after'⟩, hsplit, he⟩ := Option.map_eq_some_iff.1 h
          cases he
          obtain ⟨hrest, rfl⟩ := ih hsplit
          exact ⟨fun hm => (List.mem_cons.1 hm).elim (fun he => hc he.symm) hrest, rfl⟩
  · rintro ⟨hbefore, rfl⟩
    exact splitFirst?_append hbefore after

end Text

namespace FilePath

theorem splitName_eq_some {name stem extension : String} :
    splitName name = (stem, some extension) ↔
      stem ≠ "" ∧ '.' ∉ extension.toList ∧ name = stem ++ "." ++ extension := by
  have hback : ∀ back : List Char × List Char,
      Text.splitFirst? '.' name.toList.reverse = some back ↔
        '.' ∉ back.1 ∧ name.toList = back.2.reverse ++ '.' :: back.1.reverse := by
    intro back
    rw [Text.splitFirst?_eq_some, List.reverse_eq_iff]
    simp
  rw [splitName]
  constructor
  · intro h
    split at h
    next after before hsplit =>
      obtain ⟨hpoint, hname⟩ := (hback _).1 hsplit
      split at h
      · cases h
      next hbefore =>
        cases h
        refine ⟨?_, ?_, ?_⟩
        · rw [Ne, ← String.toList_eq_nil_iff, String.toList_ofList, List.reverse_eq_nil_iff]
          exact mt List.isEmpty_iff.2 hbefore
        · rw [String.toList_ofList, List.mem_reverse]
          exact hpoint
        · apply String.toList_inj.1
          simp [hname]
    next => cases h
  · rintro ⟨hstem, hpoint, rfl⟩
    have hsplit := (hback (extension.toList.reverse, stem.toList.reverse)).2
      ⟨fun hm => hpoint (List.mem_reverse.1 hm), by simp⟩
    rw [hsplit]
    dsimp only
    rw [if_neg]
    · simp
    · rw [List.isEmpty_iff, List.reverse_eq_nil_iff, String.toList_eq_nil_iff]
      exact hstem

theorem fileName?_join (base : FilePath) {name : FilePath} (h : IsName name) :
    fileName? (join base name) = some name := by
  rw [fileName?, components_join h, List.getLast?_concat]

theorem stem?_join (base : FilePath) {name : FilePath} (h : IsName name) :
    stem? (join base name) = some (splitName name).1 := by
  rw [stem?, fileName?_join base h, Option.map_some]

theorem extension?_join (base : FilePath) {name : FilePath} (h : IsName name) :
    extension? (join base name) = (splitName name).2 := by
  rw [extension?, fileName?_join base h, Option.bind_some]

theorem mem_join {base name : FilePath} (h : IsName name) {c : Char} (hc : c ≠ '/') :
    c ∈ (join base name).toList ↔ c ∈ base.toList ∨ c ∈ name.toList := by
  rw [join, h.isAbsolute, if_neg Bool.false_ne_true]
  split
  · rw [String.toList_append, List.mem_append]
  · simp [hc]

theorem join_ne_empty (base : FilePath) {name : FilePath} (h : IsName name) :
    join base name ≠ "" := by
  rw [join, h.isAbsolute, if_neg Bool.false_ne_true]
  split <;> simp [h.nonempty]

end FilePath

namespace FileTree
variable {t : FileTree}

theorem walk_append (l : Location) (ss ts : List String) :
    t.walk l (ss ++ ts) = (t.walk l ss).bind fun m => t.walk m ts := by
  induction ss generalizing l with
  | nil => rfl
  | cons s ss ih =>
      rw [List.cons_append, walk, walk]
      split
      · rfl
      · rfl
      · split
        · rfl
        · exact ih _

theorem locate_join {base name : FilePath} (hbase : base ≠ "") (h : FilePath.IsName name)
    (hnul : '\x00' ∉ name.toList) :
    t.locate (FilePath.join base name) = (t.locate base).bind fun l => t.walk l [name] := by
  rw [locate, locate, if_neg (FilePath.join_ne_empty base h), if_neg hbase]
  by_cases hb : '\x00' ∈ base.toList
  · rw [if_pos, if_pos]
    · rfl
    · exact List.contains_iff_mem.2 hb
    · exact List.contains_iff_mem.2 ((FilePath.mem_join h (by decide)).2 (Or.inl hb))
  · rw [if_neg, if_neg, start, FilePath.isAbsolute_join h, steps_join h, walk_append, start]
    · exact mt List.contains_iff_mem.1 hb
    · intro hjoin
      obtain hin | hin := (FilePath.mem_join h (by decide)).1 (List.contains_iff_mem.1 hjoin)
      · exact hb hin
      · exact hnul hin

theorem namesDirectory_join (base : FilePath) {name : FilePath} (h : FilePath.IsName name) :
    namesDirectory (FilePath.join base name) = false := by
  obtain ⟨before, hjoin, -⟩ := FilePath.pieces_join base h
  rw [namesDirectory, hjoin, List.getLast?_concat]
  simp [h.nonempty, h.ne_dot, h.ne_dots]

def childOf (l : Location) (p : Location × Entry) : Option (String × Entry) :=
  match p.1.getLast? with
  | some name => if p.1.dropLast = l then some (name, p.2) else none
  | none => none

theorem children_eq (t : FileTree) (l : Location) :
    t.children l = t.entries.filterMap (childOf l) :=
  rfl

theorem childOf_eq_some {l : Location} {p : Location × Entry} {name : String} {e : Entry} :
    childOf l p = some (name, e) ↔ p = (l ++ [name], e) := by
  obtain ⟨m, f⟩ := p
  rw [childOf]
  obtain rfl | ⟨m, last, rfl⟩ := List.eq_nil_or_concat' m
  · simp
  · rw [List.getLast?_concat, List.dropLast_concat]
    dsimp only
    by_cases hm : m = l
    · subst hm
      simp [Prod.ext_iff]
    · rw [if_neg hm]
      simp [hm]

theorem find_child {l : Location} {name : String} {e : Entry} {es : List (Location × Entry)}
    (hd : ((es.filterMap (childOf l)).map Prod.fst).Nodup)
    (h : (name, e) ∈ es.filterMap (childOf l)) : find (l ++ [name]) es = some e := by
  induction es with
  | nil => cases h
  | cons p es ih =>
      obtain ⟨m, f⟩ := p
      rw [find]
      by_cases hm : m = l ++ [name]
      · have hchild : childOf l (m, f) = some (name, f) := childOf_eq_some.2 (by rw [hm])
        rw [List.filterMap_cons_some hchild] at hd h
        rw [if_pos hm]
        obtain he | hin := List.mem_cons.1 h
        · cases he
          rfl
        · exact absurd (List.mem_map_of_mem hin) (List.nodup_cons.1 hd).1
      · rw [if_neg hm]
        cases hchild : childOf l (m, f) with
        | none =>
            rw [List.filterMap_cons_none hchild] at hd h
            exact ih hd h
        | some c =>
            rw [List.filterMap_cons_some hchild] at hd h
            obtain rfl | hin := List.mem_cons.1 h
            · exact absurd (congrArg Prod.fst (childOf_eq_some.1 hchild)) hm
            · exact ih (List.nodup_cons.1 hd).2 hin

/-- A path leads to a directory with just these entries, each with a name of its own. -/
structure Lists (t : FileTree) (directory : FilePath) (content : List (String × Entry)) :
    Prop where
  located : t.locate directory = .ok (t.place directory)
  isDirectory : t.entry? (t.place directory) = some .directory
  children : t.children (t.place directory) = content
  distinct : (content.map Prod.fst).Nodup
  names : ∀ c ∈ content, FilePath.IsName c.1 ∧ '\x00' ∉ c.1.toList ∧ isTooLong c.1 = false

namespace Lists
variable {directory : FilePath} {content : List (String × Entry)}

theorem ne_empty (h : t.Lists directory content) : directory ≠ "" := by
  rintro rfl
  cases h.located

theorem read_join (h : t.Lists directory content) {name : String} {bytes : ByteArray}
    (hc : (name, .file bytes) ∈ content) :
    t.read (FilePath.join directory name) = .ok bytes := by
  obtain ⟨hname, hnul, hshort⟩ := h.names _ hc
  apply read_eq_ok.2
  refine ⟨t.place directory ++ [name], ?_, ?_, namesDirectory_join directory hname⟩
  · rw [locate_join h.ne_empty hname hnul, h.located]
    change t.walk (t.place directory) [name] = _
    rw [walk, h.isDirectory]
    dsimp only
    rw [hshort, if_neg Bool.false_ne_true, walk, step, if_neg hname.ne_dots]
  · rw [ entry?, if_neg (List.append_ne_nil_of_right_ne_nil _ (List.cons_ne_nil _ _))]
    have hchildren := h.children
    rw [children_eq] at hchildren
    apply find_child
    · rw [hchildren]
      exact h.distinct
    · rw [hchildren]
      exact hc

theorem exists?_of_join {base name : FilePath} (hbase : base ≠ "") (hname : FilePath.IsName name)
    (hnul : '\x00' ∉ name.toList) (h : t.Lists (FilePath.join base name) content) :
    t.exists? base = true := by
  have hl := h.located
  rw [locate_join hbase hname hnul] at hl
  rw [exists?, look]
  cases hb : t.locate base with
  | error e =>
      rw [hb] at hl
      cases hl
  | ok l =>
      rw [hb] at hl
      replace hl : t.walk l [name] = _ := hl
      rw [walk] at hl
      split at hl
      · cases hl
      · cases hl
      next hdir =>
        dsimp only
        rw [hdir]

end Lists

end FileTree

end Experiment
