import Experiment.Proofs.Logging

/-!
# Which store a default target is in

What stands before the first `://` of a url decides on its store. Putting a key under an output path
takes slashes from the end of the path and puts one in their place. That leaves the scheme alone,
except where the path is nothing but a scheme and slashes: then the mark goes with them, and what
is left names a file.
-/

namespace Experiment

namespace Store
variable {cs as bs name : List Char}

/-- What stands before the first mark, if there is one. -/
def scheme? : List Char → Option (List Char)
  | [] => none
  | c :: cs => if Text.startsWith schemeMark (c :: cs) then some [] else (scheme? cs).map (c :: ·)

theorem containsChars_schemeMark (cs : List Char) :
    Text.containsChars schemeMark cs = (scheme? cs).isSome := by
  induction cs with
  | nil => rfl
  | cons c cs ih =>
      rw [Text.containsChars, ih, scheme?]
      split
      next h => rw [h]; rfl
      next h => simp [h]

theorem scheme?_cons_of_ne {c : Char} (h : c ≠ ':') (cs : List Char) :
    scheme? (c :: cs) = (scheme? cs).map (c :: ·) := by
  refine if_neg fun hstart => ?_
  obtain ⟨rest, hrest⟩ := Text.startsWith_iff.1 hstart
  cases hrest
  exact h rfl

/-- A mark does not reach from a text without one into what does not begin with a slash. -/
theorem scheme?_append_of_none (h : scheme? as = none) (hb : bs.head? ≠ some '/') :
    scheme? (as ++ bs) = (scheme? bs).map (as ++ ·) := by
  induction as with
  | nil => simp
  | cons a as ih =>
      rw [scheme?] at h
      split at h
      next => cases h
      next hstart =>
        have hnot : ¬ Text.startsWith schemeMark (a :: as ++ bs) = true := fun hs => by
          obtain ⟨rest, hrest⟩ := Text.startsWith_iff.1 hs
          -- a mark that begins here ends here, as the next text has no slash for it
          match as, hrest with
          | [], hrest =>
              cases hrest
              exact hb rfl
          | [_], hrest =>
              cases hrest
              exact hb rfl
          | x :: y :: as, hrest =>
              cases hrest
              exact hstart (Text.startsWith_iff.2 ⟨as, rfl⟩)
        calc scheme? (a :: as ++ bs) = (scheme? (as ++ bs)).map (a :: ·) := if_neg hnot
          _ = (scheme? bs).map (a :: as ++ ·) := by
              rw [ih (Option.map_eq_none_iff.1 h), Option.map_map]
              rfl

/-- A scheme ends at the first mark. -/
theorem scheme?_eq_some :
    scheme? cs = some name ↔ scheme? name = none ∧ ∃ rest, cs = name ++ schemeMark ++ rest := by
  constructor
  · intro h
    induction cs generalizing name with
    | nil => cases h
    | cons c cs ih =>
        rw [scheme?] at h
        split at h
        next hstart =>
          cases h
          exact ⟨rfl, Text.startsWith_iff.1 hstart⟩
        next hstart =>
          obtain ⟨name, hname, rfl⟩ := Option.map_eq_some_iff.1 h
          obtain ⟨hnone, rest, rfl⟩ := ih hname
          refine ⟨?_, rest, rfl⟩
          rw [scheme?, if_neg, hnone]
          · rfl
          · intro hs
            obtain ⟨more, hmore⟩ := Text.startsWith_iff.1 hs
            refine hstart (Text.startsWith_iff.2 ⟨more ++ schemeMark ++ rest, ?_⟩)
            rw [← List.append_assoc, ← List.append_assoc, ← hmore]
            rfl
  · rintro ⟨hnone, rest, rfl⟩
    rw [List.append_assoc, scheme?_append_of_none hnone (by simp [schemeMark])]
    simp [schemeMark, scheme?, Text.startsWith, Text.afterStart?]

theorem scheme?_append_of_some (h : scheme? as = some name) (bs : List Char) :
    scheme? (as ++ bs) = some name := by
  obtain ⟨hnone, rest, rfl⟩ := scheme?_eq_some.1 h
  exact scheme?_eq_some.2 ⟨hnone, rest ++ bs, by rw [List.append_assoc _ rest]⟩

theorem scheme?_left (h : scheme? (as ++ bs) = none) : scheme? as = none := by
  cases has : scheme? as with
  | none => rfl
  | some name => rw [scheme?_append_of_some has] at h; cases h

theorem scheme?_right (h : scheme? (as ++ bs) = none) : scheme? bs = none := by
  induction as with
  | nil => exact h
  | cons a as ih =>
      rw [List.cons_append, scheme?] at h
      split at h
      · cases h
      · exact ih (Option.map_eq_none_iff.1 h)

theorem scheme?_of_short (h : cs.length < 3) : scheme? cs = none := by
  cases hs : scheme? cs with
  | none => rfl
  | some name =>
      obtain ⟨-, rest, rfl⟩ := scheme?_eq_some.1 hs
      simp only [schemeMark, List.length_append, List.length_cons] at h
      omega

/-- The backend for a scheme; others are refused. -/
def backendFor? : Option (List Char) → Option Backend
  | none => some .file
  | some name =>
    if name = "memory".toList then some .memory
    else if name = "file".toList then some .file
    else none

/-- The backend that a url selects, unless it is refused. -/
def backend? (url : String) : Option Backend :=
  (resolve url).toOption.map Prod.fst

theorem afterStart?_eq_none (hn : scheme? name = none) (cs : List Char) :
    Text.afterStart? (name ++ schemeMark) cs = none ↔ scheme? cs ≠ some name := by
  rw [Ne, scheme?_eq_some, and_iff_right hn, Option.eq_none_iff_forall_ne_some]
  simp only [Ne, Text.afterStart?_eq_some, not_exists]

theorem backend?_eq (url : String) : backend? url = backendFor? (scheme? url.toList) := by
  have hmemory := afterStart?_eq_none (show scheme? "memory".toList = none by decide) url.toList
  have hfile := afterStart?_eq_none (show scheme? "file".toList = none by decide) url.toList
  rw [show "memory".toList ++ schemeMark = "memory://".toList from rfl] at hmemory
  rw [show "file".toList ++ schemeMark = "file://".toList from rfl] at hfile
  rw [backend?, resolve, containsChars_schemeMark]
  cases hs : scheme? url.toList with
  | none =>
      rw [hmemory.2 (by simp [hs]), hfile.2 (by simp [hs])]
      rfl
  | some name =>
      rw [backendFor?]
      by_cases hm : name = "memory".toList
      · obtain ⟨path, hpath⟩ := Option.ne_none_iff_exists'.1 fun he => hmemory.1 he (hm ▸ hs)
        rw [hpath, if_pos hm]
        rfl
      · rw [hmemory.2 fun he => hm (Option.some.inj (hs.symm.trans he)), if_neg hm]
        by_cases hf : name = "file".toList
        · obtain ⟨path, hpath⟩ := Option.ne_none_iff_exists'.1 fun he => hfile.1 he (hf ▸ hs)
          rw [hpath, if_pos hf]
          rfl
        · rw [hfile.2 fun he => hf (Option.some.inj (hs.symm.trans he)), if_neg hf]
          rfl

/-- Without the slashes at its end. -/
def trimmed (cs : List Char) : List Char :=
  Text.dropRightWhile (· = '/') cs

theorem trimmed_append (cs : List Char) (n : Nat) :
    trimmed (cs ++ ':' :: List.replicate n '/') = cs ++ [':'] := by
  rw [trimmed, Text.dropRightWhile, List.reverse_append, List.reverse_cons, List.reverse_replicate,
    List.append_assoc, List.dropWhile_append_of_pos]
  · simp
  · simp

theorem eq_slashes_append (cs : List Char) :
    ∃ k, cs = List.replicate k '/' ++ cs.dropWhile (· = '/') := by
  induction cs with
  | nil => exact ⟨0, rfl⟩
  | cons c cs ih =>
      obtain ⟨k, hk⟩ := ih
      by_cases hc : c = '/'
      · have hdrop : (c :: cs).dropWhile (· = '/') = cs.dropWhile (· = '/') :=
          List.dropWhile_cons_of_pos (by simpa using hc)
        refine ⟨k + 1, ?_⟩
        rw [hdrop, List.replicate_succ, List.cons_append, ← hk, hc]
      · have hdrop : (c :: cs).dropWhile (· = '/') = c :: cs :=
          List.dropWhile_cons_of_neg (by simpa using hc)
        exact ⟨0, hdrop.symm⟩

theorem head?_dropWhile_slash (cs : List Char) : (cs.dropWhile (· = '/')).head? ≠ some '/' := by
  intro h
  have hnot := List.head?_dropWhile_not (fun c => decide (c = '/')) cs
  rw [h] at hnot
  simp at hnot

theorem eq_trimmed_append (cs : List Char) : ∃ k, cs = trimmed cs ++ List.replicate k '/' := by
  obtain ⟨k, hk⟩ := eq_slashes_append cs.reverse
  refine ⟨k, ?_⟩
  rw [trimmed, Text.dropRightWhile, ← List.reverse_replicate, ← List.reverse_append, ← hk,
    List.reverse_reverse]

theorem getLast?_trimmed (cs : List Char) : (trimmed cs).getLast? ≠ some '/' := by
  rw [trimmed, Text.dropRightWhile, List.getLast?_reverse]
  exact head?_dropWhile_slash cs.reverse

/-- Nothing but a scheme and slashes. -/
def Bare (name cs : List Char) : Prop :=
  scheme? name = none ∧ ∃ n, cs = name ++ ':' :: List.replicate (n + 2) '/'

/-- Slashes complete a mark only after a colon. -/
theorem eq_concat_of_scheme? (ht : as.getLast? ≠ some '/') (hs : scheme? as = none) {k : Nat}
    (h : scheme? (as ++ List.replicate k '/') = some name) :
    as = name ++ [':'] ∧ 2 ≤ k := by
  obtain ⟨hnone, rest, hrest⟩ := scheme?_eq_some.1 h
  rw [schemeMark, List.append_assoc] at hrest
  obtain ⟨xs, rfl, hxs⟩ | ⟨xs, rfl, hxs⟩ := List.append_eq_append_iff.1 hrest
  · have hmem : ':' ∈ List.replicate k '/' := hxs ▸ by simp
    simp at hmem
  · -- what the text itself has of the mark: nothing, the colon, a slash more, or all of it
    change ':' :: '/' :: '/' :: rest = _ at hxs
    match xs, hxs with
    | [], hxs =>
        have hmem : ':' ∈ List.replicate k '/' := by
          rw [List.nil_append] at hxs
          rw [← hxs]
          simp
        simp at hmem
    | [c], hxs =>
        rw [List.singleton_append, List.cons.injEq] at hxs
        refine ⟨by rw [hxs.1], ?_⟩
        have hlength := congrArg List.length hxs.2
        rw [List.length_replicate] at hlength
        exact hlength ▸ Nat.le_add_left 2 _
    | [c, d], hxs =>
        rw [List.cons_append, List.cons_append, List.cons.injEq, List.cons.injEq] at hxs
        obtain ⟨rfl, rfl, -⟩ := hxs
        simp at ht
    | c :: d :: e :: xs, hxs =>
        simp only [List.cons_append, List.cons.injEq] at hxs
        obtain ⟨rfl, rfl, rfl, -⟩ := hxs
        rw [scheme?_eq_some.2 ⟨hnone, xs, by simp [schemeMark]⟩] at hs
        cases hs

theorem bare_iff : Bare name cs ↔ scheme? cs = some name ∧ scheme? (trimmed cs) = none := by
  constructor
  · rintro ⟨hnone, n, rfl⟩
    refine ⟨scheme?_eq_some.2 ⟨hnone, List.replicate n '/', ?_⟩, ?_⟩
    · simp [schemeMark, List.replicate_succ]
    · rw [trimmed_append, scheme?_append_of_none hnone (by simp)]
      rfl
  · rintro ⟨hsome, hnone⟩
    obtain ⟨k, hk⟩ := eq_trimmed_append cs
    rw [hk] at hsome
    obtain ⟨hname, h2⟩ := eq_concat_of_scheme? (getLast?_trimmed cs) hnone hsome
    refine ⟨scheme?_left (hname ▸ hnone), k - 2, ?_⟩
    rw [Nat.sub_add_cancel h2, List.append_cons, ← hname, ← hk]

theorem scheme?_join (ht : as.getLast? ≠ some '/') (hb : bs.head? ≠ some '/')
    (hs : scheme? bs = none) : scheme? (as ++ '/' :: bs) = scheme? as := by
  cases has : scheme? as with
  | some name => exact scheme?_append_of_some has _
  | none =>
      obtain rfl | ⟨init, c, rfl⟩ := List.eq_nil_or_concat as
      · rw [List.nil_append, scheme?_cons_of_ne (by decide), hs]
        rfl
      · have hc : c ≠ '/' := by simpa using ht
        have hshort : scheme? ([c, '/'] ++ bs) = none := by
          rw [scheme?_append_of_none (scheme?_of_short (by simp)) hb, hs]
          rfl
        rw [List.concat_eq_append, List.append_assoc, List.singleton_append]
        rw [List.concat_eq_append] at has
        rw [scheme?_append_of_none (scheme?_left has) (by simpa using hc)]
        exact congrArg _ hshort

section Join
variable {base key : String}

/-- What a key is put under has the scheme of the base without its slashes. -/
theorem backend?_joinPath (hkey : Text.containsChars schemeMark key.toList = false) :
    backend? (joinPath base key) = backendFor? (scheme? (trimmed base.toList)) := by
  have hnone : scheme? key.toList = none := by
    rwa [containsChars_schemeMark, Option.isSome_eq_false_iff, Option.isNone_iff_eq_none] at hkey
  rw [backend?_eq, joinPath]
  split
  next hbase =>
    rw [hnone, hbase]
    rfl
  next =>
    obtain ⟨k, hk⟩ := eq_slashes_append key.toList
    rw [String.toList_ofList]
    congr 1
    exact scheme?_join (getLast?_trimmed _) (head?_dropWhile_slash _) (scheme?_right (hk ▸ hnone))

/-- A scheme of another store than that of files, and slashes. -/
def Stripped (base : String) : Prop :=
  ∃ name, name ≠ "file".toList ∧ Bare name base.toList

theorem backend?_joinPath_of_stripped (hkey : Text.containsChars schemeMark key.toList = false)
    (h : Stripped base) : backend? (joinPath base key) = some .file := by
  obtain ⟨name, -, hbare⟩ := h
  rw [backend?_joinPath hkey, (bare_iff.1 hbare).2]
  rfl

theorem backend?_ne_file_of_stripped (h : Stripped base) : backend? base ≠ some .file := by
  obtain ⟨name, hname, hbare⟩ := h
  rw [backend?_eq, (bare_iff.1 hbare).1, backendFor?, if_neg hname]
  split <;> simp

theorem backend?_joinPath_of_not_stripped (hkey : Text.containsChars schemeMark key.toList = false)
    (h : ¬ Stripped base) : backend? (joinPath base key) = backend? base := by
  rw [backend?_joinPath hkey, backend?_eq base]
  cases ht : scheme? (trimmed base.toList) with
  | some name =>
      obtain ⟨k, hk⟩ := eq_trimmed_append base.toList
      rw [hk, scheme?_append_of_some ht]
  | none =>
      cases hs : scheme? base.toList with
      | none => rfl
      | some name =>
          by_cases hname : name = "file".toList
          · rw [hname]
            rfl
          · exact absurd ⟨name, hname, bare_iff.2 ⟨hs, ht⟩⟩ h

theorem not_stripped_of_scheme? (h : (scheme? (trimmed base.toList)).isSome = true) :
    ¬ Stripped base := by
  rintro ⟨name, -, hbare⟩
  rw [(bare_iff.1 hbare).2] at h
  cases h

theorem resolve_of_refused {url : String} (h : backend? url = none) :
    resolve url = .error (.unsupportedScheme url) := by
  rw [backend?] at h
  rw [resolve] at h ⊢
  split at h
  · cases h
  · split at h
    · cases h
    · split at h
      next hmark => rw [if_pos hmark]
      next => cases h

theorem resolve_of_backend? {url : String} {b : Backend} (h : backend? url = some b) :
    ∃ path, resolve url = .ok (b, path) := by
  rw [backend?] at h
  cases hr : resolve url with
  | error e => rw [hr] at h; cases h
  | ok target =>
      rw [hr] at h
      cases h
      exact ⟨target.2, rfl⟩

end Join

end Store

namespace ArtifactManager
variable {m : ArtifactManager} {item : LogItem} {o : LogOptions}

/-- No target is declared for what is logged, and none is asked for. -/
def Unaimed (m : ArtifactManager) (item : LogItem) (o : LogOptions) : Prop :=
  (∀ path, OrderedMap.find? item.name m.declared = some (some path) → path = "") ∧
    (requestOf item o).2 = ""

theorem targetPath_entryOf (h : m.Unaimed item o) :
    (m.entryOf item o).targetPath = joinPath m.outputPath item.name := by
  obtain ⟨hdeclared, hrequested⟩ := h
  have htarget : (m.entryOf item o).targetPath =
      m.resolveTarget item.name (requestOf item o).2 := by
    cases item <;> rfl
  rw [htarget, hrequested, resolveTarget, if_neg (not_not_intro rfl)]
  split
  next path hpath => rw [if_neg (not_not_intro (hdeclared path hpath))]
  next => rfl

/-- What is logged is written to this backend and nowhere else, or it is refused for its target. -/
def Lands (m : ArtifactManager) (item : LogItem) (o : LogOptions) (target : String) :
    Option Backend → Prop
  | some b => (m.send item o).Keeps (Store.spared b) ∧
      ∀ body w v, payload? (requestOf item o).1 o = some body → o.upload = true →
        (m.send item o).on w = (.ok (), v) →
        ∃ path, Store.resolve target = .ok (b, path) ∧ (Store.fetch b path).on v = (.ok body, v)
  | none => o.upload = true → ∀ w, (m.log item o).on w =
      ((m.enter (m.entryOf item o), .error (.storage (.unsupportedScheme target))), w)

/-- The target of an entry says where it lands. -/
theorem lands (m : ArtifactManager) (item : LogItem) (o : LogOptions) :
    m.Lands item o (m.entryOf item o).targetPath
      (Store.backend? (m.entryOf item o).targetPath) := by
  cases hb : Store.backend? (m.entryOf item o).targetPath with
  | none =>
      intro hupload w
      have hsend : (m.send item o).on w =
          (.error (.storage (.unsupportedScheme (m.entryOf item o).targetPath)), w) := by
        rw [send, if_pos hupload]
        exact upload_of_refused (Store.resolve_of_refused hb) _ w
      rcases h : (m.log item o).on w with ⟨⟨m', r⟩, w'⟩
      cases logs h with
      | refused sent =>
          rw [hsend] at sent
          cases sent
          rfl
      | unrecorded _ sent =>
          rw [hsend] at sent
          cases sent
      | recorded _ sent _ =>
          rw [hsend] at sent
          cases sent
  | some b =>
      obtain ⟨path, hpath⟩ := Store.resolve_of_backend? hb
      refine ⟨?_, fun body w v hbody hupload hsend => ⟨path, hpath, ?_⟩⟩
      · rw [send]
        split
        · exact keeps_upload hpath _
        · exact .pure ()
      · rw [send, if_pos hupload, on_upload hpath, hbody] at hsend
        exact Store.fetch_of_put (Attempt.on_mapError_eq_ok.1 hsend)

/-- A default target is in the store of the output path exactly if the path is not a scheme other
than `file` with nothing but slashes after it. Then what is logged without a target lands in that
store, or stays refused; below such a path it lands in a file. -/
theorem default_target (base key : String)
    (hkey : Text.containsChars Store.schemeMark key.toList = false) :
    (Store.backend? (joinPath base key) = Store.backend? base ↔ ¬ Store.Stripped base) ∧
      ∀ m : ArtifactManager, ∀ item o, m.outputPath = base → item.name = key →
        m.Unaimed item o →
          (¬ Store.Stripped base → m.Lands item o (joinPath base key) (Store.backend? base)) ∧
          (Store.Stripped base → m.Lands item o (joinPath base key) (some .file)) := by
  refine ⟨⟨fun h hs => ?_, Store.backend?_joinPath_of_not_stripped hkey⟩, ?_⟩
  · rw [Store.backend?_joinPath_of_stripped hkey hs] at h
    exact Store.backend?_ne_file_of_stripped hs h.symm
  · rintro m item o rfl rfl haim
    have hl := m.lands item o
    rw [targetPath_entryOf haim] at hl
    constructor
    · intro hs
      rwa [Store.backend?_joinPath_of_not_stripped hkey hs] at hl
    · intro hs
      rwa [Store.backend?_joinPath_of_stripped hkey hs] at hl

/-- A slash at the end of the output path does not matter, and nothing is written to the files. -/
theorem default_target_memory :
    Store.backend? (joinPath "memory://out/" "model") = some .memory ∧
      ∃ v path, (send { outputPath := "memory://out/" } (.key "model")
          { body := some "x".toUTF8 }).on {} = (.ok (), v) ∧
        v.files.entries = [] ∧ (Store.fetch .memory path).on v = (.ok "x".toUTF8, v) := by
  have hs : ¬ Store.Stripped "memory://out/" := Store.not_stripped_of_scheme? (by decide)
  have hmemory : Store.backend? "memory://out/" = some .memory := by decide
  obtain ⟨htarget, hlands⟩ := default_target "memory://out/" "model" (by decide)
  have hl := (hlands { outputPath := "memory://out/" } (.key "model")
    { body := some "x".toUTF8 } rfl rfl ⟨nofun, rfl⟩).1 hs
  rw [hmemory] at hl
  obtain ⟨hkeeps, hfetch⟩ := hl
  obtain ⟨path, -, hpath⟩ := hfetch _ {} _ rfl rfl rfl
  exact ⟨(htarget.2 hs).trans hmemory, _, path, rfl,
    congrArg (fun w : World => w.files.entries) (hkeeps {}), hpath⟩

/-- The slashes of a bare scheme are taken for slashes at the end of a path. -/
theorem default_target_leaves_store :
    Text.containsChars Store.schemeMark "m".toList = false ∧
      Store.backend? "memory://" = some .memory ∧
      Store.backend? (joinPath "memory://" "m") = some .file ∧
      Store.backend? "s3://" = none ∧ Store.backend? (joinPath "s3://" "m") = some .file ∧
      let logged := (log { outputPath := "memory://" } (.key "m") { body := some "x".toUTF8 }).on {}
      logged.1.2.isOk = true ∧ logged.2.memory.isEmpty = true ∧
        logged.2.files.isFile "memory:/m" = true := by
  decide +kernel

end ArtifactManager

end Experiment
