import Experiment.Project
import Experiment.Proofs.ByteOrder
import Experiment.Proofs.Listings
import Mathlib.Data.List.Forall2
import Mathlib.Data.List.Nodup

/-!
# The definitions in a directory

A file among the entries of the directory is a definition if its name ends in one of two extensions,
and the definitions are read one by one in the order of the bytes of their names. They are all known
in the end if each gives a run and no two runs are called the same; else reading stops at the first
one that gives no run or whose run is called as an earlier one.
-/

namespace Experiment

namespace Yaml

theorem document?_braces : document? "\x7b\x7d" = some (.mapping []) := by
  have hshape : ((tokens? (withoutMark "\x7b\x7d".toList)).bind fun tokens =>
      Build.document.run { tokens }).map (fun read => match read.1 with
        | .mapping tag entries => tag = "" && entries.isEmpty
        | _ => false) = some true := by
    decide +kernel
  obtain ⟨⟨n, b⟩, hread, hn⟩ := Option.map_eq_some_iff.1 hshape
  obtain ⟨tokens, htokens, hbuilt⟩ := Option.bind_eq_some_iff.1 hread
  cases n with
  | mapping tag entries =>
      simp only [Bool.and_eq_true, decide_eq_true_eq, List.isEmpty_iff] at hn
      obtain ⟨rfl, rfl⟩ := hn
      have hexpand : ∀ depth budget, expand b depth budget [] (.mapping "" []) =
          some (.mapping [], budget) := by
        intro depth budget
        rw [expand, expandEntries]
        rfl
      rw [document?, htokens]
      simp only [Option.bind_eq_bind, Option.bind_some, hbuilt, hexpand]
      rfl
  | scalar | sequence | reference => cases hn

end Yaml

namespace Project

/-- A file that the ending of its name makes a definition. -/
structure Source where
  stem : String
  extension : String
  bytes : ByteArray

/-- Where the definitions of a project lie. -/
def runsDirectory (root : FilePath) : FilePath :=
  FilePath.join (FilePath.join root directoryName) "runs"

/-- What is read from a directory. -/
def definitionsIn (files : FileTree) (directory : FilePath) :
    Except ProjectError (List RunDefinition) :=
  readDefinitions files [] (definitionFiles files directory)

namespace Source

def name (s : Source) : String :=
  s.stem ++ "." ++ s.extension

def path (directory : FilePath) (s : Source) : FilePath :=
  FilePath.join directory s.name

structure Among (content : List (String × Entry)) (s : Source) : Prop where
  stem : s.stem ≠ ""
  extension : s.extension = "yaml" ∨ s.extension = "yml"
  listed : (s.name, .file s.bytes) ∈ content

/-- A run without a name is called as its file, less the extension. -/
def called (s : Source) (run : Run) : Run :=
  if Text.isBlankText run.metadata.name then
    { run with metadata := { run.metadata with name := s.stem } }
  else run

/-- What comes of a source: a run, or the error that says why there is none. -/
inductive Reads (directory : FilePath) (s : Source) : Except ProjectError Run → Prop
  | unreadable (h : String.fromUTF8? s.bytes = none) :
    Reads directory s (.error (.unreadable (s.path directory) .notText))
  | undecodable {text : String} (ht : String.fromUTF8? s.bytes = some text)
    (h : (Yaml.document? text).bind (Run.decode Reading.yaml) = none) :
    Reads directory s (.error (.definition (s.path directory)))
  | iterated {text : String} {run : Run} (ht : String.fromUTF8? s.bytes = some text)
    (h : (Yaml.document? text).bind (Run.decode Reading.yaml) = some run)
    (hi : run.metadata.iteration ≠ 0) :
    Reads directory s (.error (.invalid (s.path directory)
      "run definitions must not set metadata.iteration"))
  | defined {text : String} {run : Run} (ht : String.fromUTF8? s.bytes = some text)
    (h : (Yaml.document? text).bind (Run.decode Reading.yaml) = some run)
    (hi : run.metadata.iteration = 0) : Reads directory s (.ok (s.called run))

end Source

/-- Every source gives a definition, in this order, and no two are called the same. -/
structure Loads (directory : FilePath) (sources : List Source)
    (definitions : List RunDefinition) : Prop where
  reads : List.Forall₂ (fun s d => d.path = s.path directory ∧ s.Reads directory (.ok d.run))
    sources definitions
  distinct : (definitions.map fun d => d.run.metadata.name).Nodup

/-- What comes of sources that are read in this order: all of them are loaded, or those before the
first one that fails or repeats a name. -/
inductive Loading (directory : FilePath) (sources : List Source) :
    Except ProjectError (List RunDefinition) → Prop
  | loaded {definitions : List RunDefinition} (h : Loads directory sources definitions) :
    Loading directory sources (.ok definitions)
  | failed {before after : List Source} {s : Source} {definitions : List RunDefinition}
    {e : ProjectError} (hs : sources = before ++ s :: after)
    (h : Loads directory before definitions) (he : s.Reads directory (.error e)) :
    Loading directory sources (.error e)
  | repeated {before after : List Source} {s : Source} {definitions : List RunDefinition}
    {run : Run} {d : RunDefinition} (hs : sources = before ++ s :: after)
    (h : Loads directory before definitions) (hr : s.Reads directory (.ok run))
    (hd : d ∈ definitions) (hn : d.run.metadata.name = run.metadata.name) :
    Loading directory sources
      (.error (.duplicate run.metadata.name d.path (s.path directory)))

namespace Source
variable {directory : FilePath} {s : Source}

theorem Reads.eq {r r' : Except ProjectError Run} (h : s.Reads directory r)
    (h' : s.Reads directory r') : r = r' := by
  cases h <;> cases h' <;> grind

theorem splitName_name (hs : s.stem ≠ "") (he : s.extension = "yaml" ∨ s.extension = "yml") :
    FilePath.splitName s.name = (s.stem, some s.extension) := by
  apply FilePath.splitName_eq_some.2
  refine ⟨hs, ?_, rfl⟩
  obtain he | he := he <;> rw [he] <;> decide

/-- The source that an entry of a directory is. -/
def of? : String × Entry → Option Source
  | (_, .directory) => none
  | (name, .file bytes) =>
    match FilePath.splitName name with
    | (stem, some extension) =>
      if extension = "yaml" ∨ extension = "yml" then some { stem, extension, bytes } else none
    | (_, none) => none

theorem of?_eq_some {c : String × Entry} :
    of? c = some s ↔
      s.stem ≠ "" ∧ (s.extension = "yaml" ∨ s.extension = "yml") ∧ c = (s.name, .file s.bytes) := by
  obtain ⟨name, e⟩ := c
  cases e with
  | directory => simp [of?]
  | file b =>
      rw [of?]
      constructor
      · intro h
        split at h
        next hsplit =>
          split at h
          next hextension =>
            cases h
            obtain ⟨hstem, -, rfl⟩ := FilePath.splitName_eq_some.1 hsplit
            exact ⟨hstem, hextension, rfl⟩
          next => cases h
        next => cases h
      · rintro ⟨hstem, hextension, hc⟩
        cases hc
        rw [splitName_name hstem hextension]
        exact if_pos hextension

theorem mem_filterMap_of? {content : List (String × Entry)} :
    s ∈ content.filterMap of? ↔ s.Among content := by
  rw [List.mem_filterMap]
  constructor
  · rintro ⟨c, hc, hs⟩
    obtain ⟨hstem, hextension, rfl⟩ := of?_eq_some.1 hs
    exact ⟨hstem, hextension, hc⟩
  · rintro ⟨hstem, hextension, hc⟩
    exact ⟨_, hc, of?_eq_some.2 ⟨hstem, hextension, rfl⟩⟩

/-- The extension of a path is that of the name, so an entry is taken for a definition if it is a
source. -/
theorem isDefinition_join {c : String × Entry} (h : FilePath.IsName c.1) :
    isDefinition (FilePath.join directory c.1) c.2 = (of? c).isSome := by
  obtain ⟨name, e⟩ := c
  cases e with
  | directory => rfl
  | file bytes =>
      rw [isDefinition, FilePath.extension?_join directory h, of?]
      obtain ⟨stem, extension⟩ := FilePath.splitName name
      cases extension with
      | none => rfl
      | some extension =>
          dsimp only
          by_cases hextension : extension = "yaml" ∨ extension = "yml"
          · simp [hextension]
          · simp [not_or.1 hextension]

end Source

section Directory
variable {files : FileTree} {directory : FilePath} {content : List (String × Entry)}

theorem definitionFiles_eq (h : files.Lists directory content) :
    definitionFiles files directory =
      ((content.filterMap Source.of?).mergeSort fun s t => decide (s.name ≤ t.name)).map
        (Source.path directory) := by
  have hfound : (content.filterMap fun c =>
      let path := FilePath.join directory c.1
      if isDefinition path c.2 then some (c.1, path) else none) =
      (content.filterMap Source.of?).map fun s => (s.name, s.path directory) := by
    rw [List.map_filterMap]
    apply List.filterMap_congr
    intro c hc
    dsimp only
    rw [Source.isDefinition_join (h.names c hc).1]
    cases hs : Source.of? c with
    | none => rfl
    | some s =>
        obtain ⟨-, -, rfl⟩ := Source.of?_eq_some.1 hs
        rfl
  have hsort : (((content.filterMap Source.of?).mergeSort fun s t => decide (s.name ≤ t.name)).map
      fun s => (s.name, s.path directory)) =
      ((content.filterMap Source.of?).map fun s => (s.name, s.path directory)).mergeSort
        fun a b => decide (a.1 ≤ b.1) :=
    List.map_mergeSort fun _ _ _ _ => rfl
  rw [definitionFiles, h.located]
  dsimp only at hfound ⊢
  rw [h.children, hfound, ← hsort, List.map_map]
  rfl

/-- Files are listed in the strict order of the bytes of their names. -/
theorem exists_sources (h : files.Lists directory content) :
    ∃ sources : List Source, (∀ s, s ∈ sources ↔ s.Among content) ∧
      sources.Pairwise (fun s t => Text.bytes s.name < Text.bytes t.name) ∧
      definitionFiles files directory = sources.map (Source.path directory) := by
  refine ⟨_, ?_, ?_, definitionFiles_eq h⟩
  · intro s
    rw [List.mem_mergeSort, Source.mem_filterMap_of?]
  · have hne : (content.filterMap Source.of?).Pairwise fun s t => s.name ≠ t.name := by
      rw [List.pairwise_filterMap]
      apply (List.pairwise_map.1 h.distinct).imp
      intro c c' hcc s hs t ht hst
      obtain ⟨-, -, rfl⟩ := Source.of?_eq_some.1 hs
      obtain ⟨-, -, rfl⟩ := Source.of?_eq_some.1 ht
      exact hcc hst
    have hle : ((content.filterMap Source.of?).mergeSort
        fun s t => decide (s.name ≤ t.name)).Pairwise
          fun s t => decide (s.name ≤ t.name) = true := by
      apply List.pairwise_mergeSort
      · intro a b c hab hbc
        exact decide_eq_true (le_trans (of_decide_eq_true hab) (of_decide_eq_true hbc))
      · intro a b
        rw [Bool.or_eq_true, decide_eq_true_iff, decide_eq_true_iff]
        exact le_total a.name b.name
    rw [← (List.mergeSort_perm _ fun s t => decide (s.name ≤ t.name)).pairwise_iff Ne.symm] at hne
    apply (hle.and hne).imp
    intro s t hst
    exact Text.bytes_lt_of_lt (lt_of_le_of_ne (of_decide_eq_true hst.1) hst.2)

theorem reads_readDefinition (h : files.Lists directory content) {s : Source}
    (hs : s.Among content) : s.Reads directory (readDefinition files (s.path directory)) := by
  have hread : files.read (s.path directory) = .ok s.bytes := h.read_join hs.listed
  have hnamed : ∀ run, named (s.path directory) run = s.called run := by
    intro run
    rw [named, Source.called, Source.path,
      FilePath.stem?_join directory (h.names _ hs.listed).1,
      Source.splitName_name hs.stem hs.extension]
    rfl
  rw [readDefinition, FileTree.readText, hread]
  dsimp only
  cases ht : String.fromUTF8? s.bytes with
  | none => exact .unreadable ht
  | some text =>
      dsimp only
      cases hrun : (Yaml.document? text).bind (Run.decode Reading.yaml) with
      | none => exact .undecodable ht hrun
      | some run =>
          dsimp only
          rw [hnamed]
          have hiteration : (s.called run).metadata.iteration = run.metadata.iteration := by
            rw [Source.called]
            split <;> rfl
          rw [hiteration]
          by_cases hi : run.metadata.iteration = 0
          · rw [if_pos hi]
            exact .defined ht hrun hi
          · rw [if_neg hi]
            exact .iterated ht hrun hi

end Directory

section Loop
variable {files : FileTree} {directory : FilePath} {sources done : List Source}
  {definitions : List RunDefinition} {s : Source}

theorem Loads.concat (h : Loads directory done definitions) {run : Run}
    (hr : s.Reads directory (.ok run))
    (hn : ∀ d ∈ definitions, d.run.metadata.name ≠ run.metadata.name) :
    Loads directory (done ++ [s]) (definitions ++ [⟨s.path directory, run⟩]) := by
  constructor
  · exact List.rel_append h.reads (.cons ⟨rfl, hr⟩ .nil)
  · rw [List.map_append, List.nodup_append]
    refine ⟨h.distinct, List.nodup_singleton _, ?_⟩
    intro a ha b hb
    obtain ⟨d, hd, rfl⟩ := List.mem_map.1 ha
    rw [List.map_singleton, List.mem_singleton] at hb
    rw [hb]
    exact hn d hd

/-- What is known so far is what came of the sources that are done, and the loop goes on with the
others. -/
theorem loading_readDefinitions (hreads : ∀ s ∈ sources,
    s.Reads directory (readDefinition files (s.path directory)))
    {known : List RunDefinition} (h : Loads directory done known.reverse) :
    Loading directory (done ++ sources)
      (readDefinitions files known (sources.map (Source.path directory))) := by
  induction sources generalizing done known with
  | nil =>
      rw [List.append_nil]
      exact .loaded h
  | cons s sources ih =>
      have hs := hreads s List.mem_cons_self
      rw [List.map_cons, readDefinitions]
      cases hr : readDefinition files (s.path directory) with
      | error e =>
          rw [hr] at hs
          exact .failed rfl h hs
      | ok run =>
          rw [hr] at hs
          dsimp only [bind, Except.bind]
          cases hd : known.find? fun d => d.run.metadata.name = run.metadata.name with
          | some d =>
              have hname := List.find?_some hd
              refine .repeated rfl h hs ?_ (of_decide_eq_true hname)
              exact List.mem_reverse.2 (List.mem_of_find?_eq_some hd)
          | none =>
              dsimp only
              rw [List.append_cons]
              apply ih
              · intro t ht
                exact hreads t (List.mem_cons_of_mem _ ht)
              · rw [List.reverse_cons]
                apply h.concat hs
                intro d hd'
                exact of_decide_eq_false
                  (Bool.eq_false_iff.2 (List.find?_eq_none.1 hd d (List.mem_reverse.1 hd')))

theorem exists_of_forall₂ {α β : Type} {R : α → β → Prop} {as : List α} {bs : List β}
    (h : List.Forall₂ R as bs) {a : α} (ha : a ∈ as) : ∃ b ∈ bs, R a b := by
  induction h with
  | nil => cases ha
  | cons hab _ ih =>
      obtain rfl | ha := List.mem_cons.1 ha
      · exact ⟨_, List.mem_cons_self, hab⟩
      · obtain ⟨b, hb, hr⟩ := ih ha
        exact ⟨b, List.mem_cons_of_mem _ hb, hr⟩

/-- No two sources give runs that are called the same. -/
def Apart (directory : FilePath) (s t : Source) : Prop :=
  ∀ run other, s.Reads directory (.ok run) → t.Reads directory (.ok other) →
    run.metadata.name ≠ other.metadata.name

theorem Loads.apart (h : Loads directory sources definitions) :
    sources.Pairwise (Apart directory) := by
  obtain ⟨reads, distinct⟩ := h
  induction reads with
  | nil => exact .nil
  | @cons s d sources definitions hs hrest ih =>
      rw [List.map_cons, List.nodup_cons] at distinct
      apply List.Pairwise.cons
      · intro t ht run other hrun hother
        obtain ⟨d', hd', -, hr⟩ := exists_of_forall₂ hrest ht
        cases hs.2.eq hrun
        cases hr.eq hother
        intro he
        exact distinct.1 (List.mem_map.2 ⟨d', hd', he.symm⟩)
      · exact ih distinct.2

theorem Loading.exists_ok_iff {r : Except ProjectError (List RunDefinition)}
    (h : Loading directory sources r) :
    (∃ definitions, r = .ok definitions) ↔
      (∀ s ∈ sources, ∃ run, s.Reads directory (.ok run)) ∧
        sources.Pairwise (Apart directory) := by
  constructor
  · rintro ⟨definitions, rfl⟩
    cases h with
    | loaded h =>
        refine ⟨?_, h.apart⟩
        intro s hs
        obtain ⟨d, -, -, hr⟩ := exists_of_forall₂ h.reads hs
        exact ⟨d.run, hr⟩
  · rintro ⟨hreads, hapart⟩
    cases h with
    | loaded h => exact ⟨_, rfl⟩
    | failed hs h he =>
        obtain ⟨run, hr⟩ := hreads _ (hs ▸ List.mem_append_right _ List.mem_cons_self)
        cases hr.eq he
    | repeated hs h hr hd hn =>
        obtain ⟨t, ht, -, hr'⟩ := exists_of_forall₂ h.reads.flip hd
        rw [hs, List.pairwise_append] at hapart
        exact absurd hn (hapart.2.2 t ht _ List.mem_cons_self _ _ hr' hr)

end Loop

theorem find?_eq_some_iff {p : Project}
    (h : (p.definitions.map fun d => d.run.metadata.name).Nodup) {name : String} {run : Run} :
    p.find? name = some run ↔ ∃ d ∈ p.definitions, d.run = run ∧ d.run.metadata.name = name ∧
      ∀ d' ∈ p.definitions, d'.run.metadata.name = name → d' = d := by
  rw [find?, Option.map_eq_some_iff]
  constructor
  · rintro ⟨d, hd, hrun⟩
    have hin := List.mem_of_find?_eq_some hd
    have hname := List.find?_some hd
    rw [decide_eq_true_iff] at hname
    refine ⟨d, hin, hrun, hname, ?_⟩
    intro d' hd' hname'
    exact List.inj_on_of_nodup_map h hd' hin (hname'.trans hname.symm)
  · rintro ⟨d, hin, hrun, hname, hunique⟩
    cases hd : p.definitions.find? fun d => d.run.metadata.name = name with
    | none => exact absurd (decide_eq_true hname) (List.find?_eq_none.1 hd d hin)
    | some d' =>
        have hname' := List.find?_some hd
        obtain rfl := hunique d' (List.mem_of_find?_eq_some hd) (of_decide_eq_true hname')
        exact ⟨d', rfl, hrun⟩

theorem load_eq {files : FileTree} {root : FilePath} {content : List (String × Entry)}
    (h : files.Lists (runsDirectory root) content) {settings : Settings}
    (hs : readSettings files (FilePath.join root directoryName) = .ok settings) :
    load files root =
      (definitionsIn files (runsDirectory root)).map fun definitions =>
        { settings, definitions } := by
  have hexists : files.exists? (FilePath.join root directoryName) = true := by
    apply h.exists?_of_join
    · exact FilePath.join_ne_empty root (by decide)
    · decide
    · decide
  rw [load, if_pos hexists, hs]
  rfl

/-- The sources of a directory are its files with the two extensions, in the order of the bytes of
their names. They are loaded exactly if each gives a run and no two runs are called the same; then
each source has its definition, and a name finds the one that is called so. Else the error is that
of the first source, in that order, that gives no run or repeats a name, and a repeated name is
reported with the earlier path and the later one. -/
theorem definitions_of_listing {files : FileTree} {root : FilePath}
    {content : List (String × Entry)} (h : files.Lists (runsDirectory root) content) :
    ∃ sources : List Source,
      (∀ s, s ∈ sources ↔ s.Among content) ∧
      sources.Pairwise (fun s t => Text.bytes s.name < Text.bytes t.name) ∧
      Loading (runsDirectory root) sources (definitionsIn files (runsDirectory root)) ∧
      ((∃ definitions, definitionsIn files (runsDirectory root) = .ok definitions) ↔
        (∀ s ∈ sources, ∃ run, s.Reads (runsDirectory root) (.ok run)) ∧
          sources.Pairwise (Apart (runsDirectory root))) ∧
      (∀ settings, readSettings files (FilePath.join root directoryName) = .ok settings →
        load files root = (definitionsIn files (runsDirectory root)).map fun definitions =>
          { settings, definitions }) ∧
      ∀ p : Project, definitionsIn files (runsDirectory root) = .ok p.definitions →
        ∀ name run, p.find? name = some run ↔
          ∃ d ∈ p.definitions, d.run = run ∧ d.run.metadata.name = name ∧
            ∀ d' ∈ p.definitions, d'.run.metadata.name = name → d' = d := by
  obtain ⟨sources, hmem, hsorted, hfiles⟩ := exists_sources h
  have hloading : Loading (runsDirectory root) sources
      (definitionsIn files (runsDirectory root)) := by
    have hstart : Loads (runsDirectory root) [] ([] : List RunDefinition).reverse := ⟨.nil, .nil⟩
    rw [definitionsIn, hfiles]
    apply loading_readDefinitions _ hstart
    intro s hs
    exact reads_readDefinition h ((hmem s).1 hs)
  refine ⟨sources, hmem, hsorted, hloading, hloading.exists_ok_iff, ?_, ?_⟩
  · intro settings hs
    exact load_eq h hs
  · intro p hp name run
    rw [hp] at hloading
    cases hloading with
    | loaded hloads => exact find?_eq_some_iff hloads.distinct

/-- Two definitions in which nothing is set, beside a text and a directory. -/
def blankRuns : FileTree :=
  { entries :=
    [([".runkit"], .directory),
     ([".runkit", "runs"], .directory),
     ([".runkit", "runs", "b.yml"], .file "\x7b\x7d".toUTF8),
     ([".runkit", "runs", "notes.txt"], .file "\x7b\x7d".toUTF8),
     ([".runkit", "runs", "c.yaml"], .directory),
     ([".runkit", "runs", "a.yaml"], .file "\x7b\x7d".toUTF8)] }

theorem reads_braces (directory : FilePath) (stem extension : String) :
    Source.Reads directory ⟨stem, extension, "\x7b\x7d".toUTF8⟩
      (.ok { metadata := { name := stem } }) := by
  have hrun : (Yaml.document? "\x7b\x7d").bind (Run.decode Reading.yaml) = some {} := by
    rw [Yaml.document?_braces]
    rfl
  exact .defined (Text.fromUTF8?_toUTF8 "\x7b\x7d") hrun rfl

theorem definitions_of_listing_blankRuns :
    blankRuns.Lists (runsDirectory "")
        [("b.yml", .file "\x7b\x7d".toUTF8), ("notes.txt", .file "\x7b\x7d".toUTF8),
         ("c.yaml", .directory), ("a.yaml", .file "\x7b\x7d".toUTF8)] ∧
      ∃ p, load blankRuns "" = .ok p ∧ p.names = ["a", "b"] ∧
        p.find? "b" = some { metadata := { name := "b" } } := by
  have hlists : blankRuns.Lists (runsDirectory "")
      [("b.yml", .file "\x7b\x7d".toUTF8), ("notes.txt", .file "\x7b\x7d".toUTF8),
       ("c.yaml", .directory), ("a.yaml", .file "\x7b\x7d".toUTF8)] := by
    refine ⟨rfl, rfl, rfl, by decide, ?_⟩
    simp only [List.forall_mem_cons]
    decide
  refine ⟨hlists, ?_⟩
  obtain ⟨sources, hmem, hsorted, hloading, hok, hload, -⟩ := definitions_of_listing hlists
  let a : Source := ⟨"a", "yaml", "\x7b\x7d".toUTF8⟩
  let b : Source := ⟨"b", "yml", "\x7b\x7d".toUTF8⟩
  have hsources : sources = [a, b] := by
    have hcontent : ∀ s, s ∈ sources ↔ s ∈ [a, b] := by
      intro s
      rw [hmem, ← Source.mem_filterMap_of?]
      change s ∈ [b, a] ↔ s ∈ [a, b]
      exact (List.Perm.swap a b []).mem_iff
    have hab : [a, b].Pairwise fun s t => Text.bytes s.name < Text.bytes t.name := by
      rw [List.pairwise_pair]
      decide
    have hne : ∀ {s t : Source}, Text.bytes s.name < Text.bytes t.name → s ≠ t := by
      rintro s _ h rfl
      exact absurd h (List.lt_irrefl _)
    have hperm := (List.perm_ext_iff_of_nodup (hsorted.imp hne) (hab.imp hne)).2 hcontent
    apply hperm.eq_of_pairwise _ hsorted hab
    intro s t _ _ hst hts
    exact absurd (List.lt_trans hst hts) (List.lt_irrefl _)
  have ha := reads_braces (runsDirectory "") "a" "yaml"
  have hb := reads_braces (runsDirectory "") "b" "yml"
  rw [hsources] at hloading hok
  have hreads : ∀ s ∈ [a, b], ∃ run, s.Reads (runsDirectory "") (.ok run) := by
    intro s hs
    obtain rfl | rfl := List.mem_pair.1 hs
    · exact ⟨_, ha⟩
    · exact ⟨_, hb⟩
  have hapart : [a, b].Pairwise (Apart (runsDirectory "")) := by
    rw [List.pairwise_pair]
    intro run other hrun hother
    cases ha.eq hrun
    cases hb.eq hother
    decide
  obtain ⟨definitions, hdefinitions⟩ := hok.2 ⟨hreads, hapart⟩
  have hproject := hload {} rfl
  rw [hdefinitions] at hproject hloading
  cases hloading with
  | loaded h =>
      obtain ⟨d, ds, ⟨-, hd⟩, hds, rfl⟩ := List.forall₂_cons_left_iff.1 h.reads
      obtain ⟨e, es, ⟨-, he⟩, hes, rfl⟩ := List.forall₂_cons_left_iff.1 hds
      obtain rfl := List.forall₂_nil_left_iff.1 hes
      obtain ⟨path, run⟩ := d
      obtain ⟨path', run'⟩ := e
      cases ha.eq hd
      cases hb.eq he
      exact ⟨_, hproject, rfl, rfl⟩

end Project

end Experiment
