import Experiment.Proofs.Changes
import Experiment.Proofs.Codec.Artifact
import Experiment.Run.Codec

/-!
# A field for display never makes a run unreadable

The fields of a summary that only matter for display take any JSON value: one of the kind they are
meant to have is their value, and any other is none. So a run in which one of them is set stays the
same run but for that field.
-/

namespace Experiment

/-- The fields of a summary that only matter for display. -/
inductive DisplayField where
  | targetPath
  | srcPath
  | inlined
  | viewer
  | header
deriving DecidableEq

namespace DisplayField
open Decoder Document

def name : DisplayField → String
  | targetPath => "target_path"
  | srcPath => "src_path"
  | inlined => "inline"
  | viewer => "viewer"
  | header => "header"

/-- `s'` is `s` but for this field, which is what `v` says, absent if `v` is of another kind. -/
def Takes (v : Json) (s s' : ArtifactSummary) : DisplayField → Prop
  | targetPath =>
    s' = { s with targetPath := s'.targetPath } ∧ ∀ t, s'.targetPath = some t ↔ v = .string t
  | srcPath => s' = { s with srcPath := s'.srcPath } ∧ ∀ t, s'.srcPath = some t ↔ v = .string t
  | inlined => s' = { s with inlined := s'.inlined } ∧ ∀ t, s'.inlined = some t ↔ v = .string t
  | viewer =>
    s' = { s with viewer := s'.viewer } ∧
      ∀ w, w ≠ .none → (s'.viewer = w ↔ v = .string w.name)
  | header => s' = { s with header := s'.header } ∧ ∀ ts, s'.header = some ts ↔ v = Json.strings ts

theorem asString?_eq_some_iff {v : Json} {t : String} : v.asString? = some t ↔ v = .string t := by
  cases v <;> simp [Json.asString?]

theorem allStrings_eq_some_iff {vs : List Json} {ts : List String} :
    ArtifactSummary.allStrings vs = some ts ↔ vs = ts.map Json.string := by
  refine ⟨fun h => ?_, fun h => h ▸ ArtifactSummary.allStrings_map ts⟩
  induction vs generalizing ts with
  | nil =>
      cases h
      rfl
  | cons v vs ih =>
      obtain ⟨t, ht, h⟩ := bind_eq_some_iff.1 h
      obtain ⟨rest, hrest, h⟩ := bind_eq_some_iff.1 h
      cases h
      rw [List.map_cons, asString?_eq_some_iff.1 ht, ih hrest]

theorem ofName_eq_iff {w : Viewer} (hw : w ≠ .none) {t : String} :
    Viewer.ofName t = w ↔ t = w.name := by
  refine ⟨fun h => ?_, fun h => h ▸ Viewer.ofName_name w⟩
  subst h
  simp only [Viewer.ofName] at hw ⊢
  split_ifs at hw ⊢ with htable hchart hweb
  · exact htable
  · exact hchart
  · exact hweb
  · exact absurd rfl hw

/-- The summary with this field read from `v`. -/
def assign (v : Json) (s : ArtifactSummary) : DisplayField → ArtifactSummary
  | targetPath => { s with targetPath := v.asString? }
  | srcPath => { s with srcPath := v.asString? }
  | inlined => { s with inlined := v.asString? }
  | viewer => { s with viewer := match v with
      | .string t => Viewer.ofName t
      | _ => .none }
  | header => { s with header := match v with
      | .array items => ArtifactSummary.allStrings items
      | _ => none }

theorem takes_assign (field : DisplayField) (v : Json) (s : ArtifactSummary) :
    field.Takes v s (field.assign v s) := by
  cases field with
  | targetPath => exact ⟨rfl, fun t => asString?_eq_some_iff⟩
  | srcPath => exact ⟨rfl, fun t => asString?_eq_some_iff⟩
  | inlined => exact ⟨rfl, fun t => asString?_eq_some_iff⟩
  | viewer =>
      refine ⟨rfl, fun w hw => ?_⟩
      cases v with
      | string t => simpa [assign] using ofName_eq_iff hw
      | _ => simpa [assign] using hw.symm
  | header =>
      refine ⟨rfl, fun ts => ?_⟩
      cases v with
      | array vs => simpa [assign, Json.strings] using allStrings_eq_some_iff
      | _ => simp [assign, Json.strings]

variable {field : DisplayField} {i n : Nat} {v doc doc' : Document} {value : Json}

theorem decode_of_setsField {s : ArtifactSummary}
    (hs : SetsField ArtifactSummary.fieldNames field.name v doc doc')
    (hv : v.toJson? n = some value) (h : ArtifactSummary.decode ⟨.json, n + 1⟩ doc = some s) :
    ArtifactSummary.decode ⟨.json, n + 1⟩ doc' = some (field.assign value s) := by
  obtain ⟨f, hf, h⟩ := bind_eq_some_iff.1 h
  have hname : field.name ∈ ArtifactSummary.fieldNames := by cases field <;> decide
  obtain ⟨hr, g, hg, hdiffers⟩ := record_of_setsField (by decide) hname hs hf
  -- The field that is set does not fail on any value; the others are read as before.
  have hread {α : Type} {other : String} (hother : other = field.name) (fallback : α)
      (k : Json → α) : g.orElse other fallback (Decoder.value.map k) = some (k value) := by
    rw [hother, hdiffers.orElse_changed, hr, Decoder.map, Decoder.value, hv, Option.map_some]
  have htext {other : String} (hother : other = field.name) :
      g.orElse other none ArtifactSummary.lenientText = some value.asString? :=
    hread hother none _
  have hviewer' (hother : "viewer" = field.name) :
      g.orElse "viewer" .none Viewer.decode = some (assign value s viewer).viewer :=
    hread hother Viewer.none _
  have hheader' (hother : "header" = field.name) :
      g.orElse "header" none ArtifactSummary.lenientHeader = some (assign value s header).header :=
    hread hother none _
  simp only [↓bind_eq_some_iff] at h
  obtain ⟨key, hkey, kind, hkind, targetPath, htarget, srcPath, hsrc, inlined, hinlined, tag, htag,
    hash, hhash, description, hdescription, viewer, hviewer, format, hformat, header, hheader,
    schema, hschema, sources, hsources, execution, hexecution, h⟩ := h
  cases h
  rw [ArtifactSummary.decode, hg, Option.bind_eq_bind, Option.bind_some]
  cases field <;>
    simp (disch := decide) only [hdiffers.orElse, hdiffers.maybe, htext, hkey, hkind, htarget,
      hsrc, hinlined, htag, hhash, hdescription, hviewer, hviewer', hformat, hheader, hheader',
      hschema, hsources, hexecution] <;>
    rfl

/-- One display field of one of the summaries of a status is set. -/
def SetsIn (field : DisplayField) (i : Nat) (v : Document) : Document → Document → Prop :=
  ChangesField RunStatus.fieldNames "output_artifacts"
    (ChangesItem i (SetsField ArtifactSummary.fieldNames field.name v))

theorem status_of_setsIn {status : RunStatus} (hs : field.SetsIn i v doc doc')
    (hv : v.toJson? n = some value)
    (h : RunStatus.decode ⟨.json, n + 3⟩ doc = some status) :
    ∃ s, status.outputArtifacts[i]? = some s ∧
      RunStatus.decode ⟨.json, n + 3⟩ doc' = some { status with
        outputArtifacts := status.outputArtifacts.set i (field.assign value s) } := by
  obtain ⟨f, hf, h⟩ := bind_eq_some_iff.1 h
  obtain ⟨hr, d, d', g, hitems, hd, hg, hdiffers⟩ :=
    record_of_changesField (by decide) (by decide) hs hf
  simp only [↓bind_eq_some_iff] at h
  obtain ⟨state, hstate, outputs, houtputs, summaries, hsummaries, start, hstart, update, hupdate,
    iterations, hiterations, error, herror, best, hbest, h⟩ := h
  cases h
  rw [Fields.orElse, hd, hr] at hsummaries
  obtain ⟨d₀, d₁, s, hset, hread, hi, hlist⟩ := list_of_changesItem hitems hsummaries
  rw [decode_of_setsField hset hv hread, Option.map_some] at hlist
  have hsummaries' : g.orElse "output_artifacts" [] (list ArtifactSummary.decode) =
      some (summaries.set i (field.assign value s)) := by
    rw [hdiffers.orElse_changed, hr, hlist]
  refine ⟨s, hi, ?_⟩
  rw [RunStatus.decode, hg, Option.bind_eq_bind, Option.bind_some]
  simp (disch := decide) only [hdiffers.orElse, hdiffers.maybe, hstate, houtputs, hsummaries',
    hstart, hupdate, hiterations, herror, hbest]
  rfl

theorem run_of_setsIn {run : Run}
    (hs : ChangesField ["metadata", "spec", "status"] "status" (field.SetsIn i v) doc doc')
    (hv : v.toJson? n = some value) (h : Run.decode ⟨.json, n + 4⟩ doc = some run) :
    ∃ status s, run.status = some status ∧ status.outputArtifacts[i]? = some s ∧
      Run.decode ⟨.json, n + 4⟩ doc' = some { run with
        status := some { status with
          outputArtifacts := status.outputArtifacts.set i (field.assign value s) } } := by
  obtain ⟨f, hf, h⟩ := bind_eq_some_iff.1 h
  obtain ⟨hr, d, d', g, hstatus, hd, hg, hdiffers⟩ :=
    record_of_changesField (by decide) (by decide) hs hf
  simp only [↓bind_eq_some_iff] at h
  obtain ⟨metadata, hmetadata, spec, hspec, status, hread, h⟩ := h
  cases h
  rw [Fields.maybe, Fields.orElse, hd, hr] at hread
  obtain ⟨habsent, habsent'⟩ := optional_of_changesField hstatus RunStatus.decode ⟨.json, n + 3⟩
  obtain ⟨status, hdecode, rfl⟩ := Option.map_eq_some_iff.1 (habsent.symm.trans hread)
  obtain ⟨s, hi, hread'⟩ := status_of_setsIn hstatus hv hdecode
  have hstatus' : g.maybe "status" RunStatus.decode = some (some { status with
      outputArtifacts := status.outputArtifacts.set i (field.assign value s) }) := by
    rw [Fields.maybe, hdiffers.orElse_changed, hr, habsent', hread', Option.map_some]
  refine ⟨status, s, rfl, hi, ?_⟩
  rw [Run.decode, hg, Option.bind_eq_bind, Option.bind_some]
  simp (disch := decide) only [hdiffers.orElse, hmetadata, hspec, hstatus']
  rfl

/-- A display field of a summary takes any value: the run that is read is the same but for that
field. Four of the levels of a text are around the value. -/
theorem parse_of_setsIn {text text' : String} {run : Run} (h : Run.parse? text = some run)
    (hdoc : Json.document? text = some doc) (hdoc' : Json.document? text' = some doc')
    (hs : ChangesField ["metadata", "spec", "status"] "status" (field.SetsIn i v) doc doc')
    (hv : v.toJson? (Reading.json.levels - 4) = some value) :
    ∃ status s s', run.status = some status ∧ status.outputArtifacts[i]? = some s ∧
      field.Takes value s s' ∧ Run.parse? text' = some { run with
        status := some { status with outputArtifacts := status.outputArtifacts.set i s' } } := by
  rw [Run.parse?, hdoc, Option.bind_some] at h
  obtain ⟨status, s, hstatus, hi, hread⟩ := run_of_setsIn hs hv h
  refine ⟨status, s, field.assign value s, hstatus, hi, field.takes_assign value s, ?_⟩
  rw [Run.parse?, hdoc', Option.bind_some]
  exact hread

theorem parse_of_mixed_header :
    let written (fields : OrderedMap Json) : Json := .object [("status", .object
      [("output_artifacts", .array [.object (("key", .string "plot") :: fields)])])]
    let run : Run := { status := some { outputArtifacts := [{ key := "plot" }] } }
    Run.parse? (written []).compact = some run ∧
      Run.parse? (written [("header", .array [.string "a", .number (.int 1)])]).compact = some run := by
  intro written run
  have hdoc := Json.document?_compact (v := written []) nofun
  have hdoc' := Json.document?_compact
    (v := written [("header", .array [.string "a", .number (.int 1)])])
    (by simpa [written, Json.numbers, Json.fieldsNumbers, Json.itemsNumbers] using
      Json.Token.lexes_int rfl)
  have h : Run.parse? (written []).compact = some run := by
    rw [Run.parse?, hdoc]
    rfl
  have hset (v : Document) : SetsField ArtifactSummary.fieldNames header.name v
      (.mapping [(some "key", .string "plot")])
      (.mapping [(some "key", .string "plot"), (some "header", v)]) :=
    .added [(some "key", .string "plot")] [] (by decide)
  obtain ⟨status, s, s', hstatus, hi, ⟨hs', hheader⟩, hparse⟩ := parse_of_setsIn h hdoc hdoc'
    (.named [] [] (.named [] [] (.placed [] [] rfl (hset _)))) rfl
  cases hstatus
  cases hi
  have hnone : s'.header = none := by
    cases htexts : s'.header with
    | none => rfl
    | some ts => cases allStrings_eq_some_iff.2 (Json.array.inj ((hheader ts).1 htexts))
  rw [hnone] at hs'
  subst hs'
  exact ⟨h, hparse⟩

end DisplayField

end Experiment
