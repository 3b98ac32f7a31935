import Experiment.Artifact.Summary
import Experiment.Proofs.Fields

/-!
# Summaries of artifacts are restored

The fields that only matter for display are read leniently: what is no text, or no sequence of texts,
counts as no value and is left out when the summary is written.
-/

namespace Experiment
open Decoder

theorem Viewer.restores_decode : Restores decode encode 0 := by
  intro n doc v _ _
  exact ⟨.string _, congrArg some (ofName_name v)⟩

theorem SourceRef.restores_decode : Restores decode encode 1 := by
  refine restores_fields (opens_record (by decide)) rfl fun n f s hf h => ?_
  simp only [↓Decoder.bind_eq_some_iff] at h
  obtain ⟨key, hkey, path, hpath, h⟩ := h
  cases h
  have hkey := hf.required restores_text hkey
  have hpath := hf.required restores_text hpath
  refine ⟨[("key", some (.string key)), ("path", some (.string path))], ?_, rfl, ?_, fun g hg => ?_⟩
  · simp only [encode, Slots.field_eq, ← Slots.fields_append, List.cons_append, List.nil_append]
  · simp only [List.forall_mem_cons]
    exact ⟨hkey.isJson, hpath.isJson, nofun⟩
  · simp only [hkey.required hg 0 rfl, hpath.required hg 1 rfl]
    rfl

theorem ExecutionRef.restores_decode : Restores decode encode 1 := by
  refine restores_fields (opens_record (by decide)) rfl fun n f e hf h => ?_
  simp only [↓Decoder.bind_eq_some_iff] at h
  obtain ⟨uid, huid, name, hname, project, hproject, iteration, hiteration, h⟩ := h
  cases h
  have huid := hf.required restores_text huid
  have hname := hf.text hname
  have hproject := hf.text hproject
  have hiteration := hf.always (restores_natBelow (by decide)) hiteration
    ⟨.number (.int 0), .int rfl, rfl⟩
  refine ⟨[("uid", some (.string uid)), ("name", some (.string name)),
    ("project", some (.string project)), ("iteration", some (Json.ofNat iteration))],
    ?_, rfl, ?_, fun g hg => ?_⟩
  · simp only [encode, Slots.field_eq, ← Slots.fields_append, List.cons_append, List.nil_append]
  · simp only [List.forall_mem_cons]
    exact ⟨huid.isJson, hname.isJson, hproject.isJson, hiteration.isJson, nofun⟩
  · simp only [huid.required hg 0 rfl, hname.orElse hg 1 rfl, hproject.orElse hg 2 rfl,
      hiteration.orElse hg 3 rfl]
    rfl

namespace ArtifactSummary

theorem restoresSome_lenientText : RestoresSome lenientText .string 0 := by
  intro n doc s _ _
  exact ⟨.string s, rfl⟩

theorem allStrings_map (xs : List String) : allStrings (xs.map Json.string) = some xs := by
  induction xs with
  | nil => rfl
  | cons x xs ih =>
      rw [List.map_cons, allStrings, ih]
      rfl

theorem restoresSome_lenientHeader : RestoresSome lenientHeader Json.strings 1 := by
  intro n doc xs _ _
  have hgives := gives_value_strings n xs
  refine ⟨hgives.1, ?_⟩
  change (value _ _).map _ = _
  rw [hgives.2]
  exact congrArg some (allStrings_map xs)

theorem restores_decode : Restores decode encode 3 := by
  refine restores_fields (opens_record (by decide)) rfl fun n f s hf h => ?_
  simp only [↓Decoder.bind_eq_some_iff] at h
  obtain ⟨key, hkey, kind, hkind, targetPath, htarget, srcPath, hsrc, inlined, hinlined, tag, htag,
    hash, hhash, description, hdescription, viewer, hviewer, format, hformat, header, hheader,
    schema, hschema, sources, hsources, execution, hexecution, h⟩ := h
  cases h
  have hlenient : RestoresSome lenientText .string 2 := restoresSome_lenientText.mono (by decide)
  have hkey := hf.text hkey
  have hkind := hf.textField hkind
  have htarget := hf.unlessNone hlenient htarget
  have hsrc := hf.unlessNone hlenient hsrc
  have hinlined := hf.unlessNone hlenient hinlined
  have htag := hf.textField htag
  have hhash := hf.maybeText hhash
  have hdescription := hf.textField hdescription
  have hviewer := hf.unlessMissing (Viewer.restores_decode.mono (by decide))
    (decide (viewer ≠ .none)) (by simp) hviewer
  have hformat := hf.textField hformat
  have hheader := hf.unlessNone (restoresSome_lenientHeader.mono (by decide)) hheader
  have hschema := hf.unlessNone (restoresSome_value.mono (by decide)) hschema
  have hsources := hf.unlessMissing SourceRef.restores_decode.list (!sources.isEmpty) (by simp)
    hsources
  have hexecution := hf.unlessNone
    ((ExecutionRef.restores_decode.mono (by decide)).optional nofun) hexecution
  refine ⟨[("key", some (.string key)),
    ("kind", if decide (kind ≠ "") then some (.string kind) else none),
    ("target_path", targetPath.map Json.string), ("src_path", srcPath.map Json.string),
    ("inline", inlined.map Json.string),
    ("tag", if decide (tag ≠ "") then some (.string tag) else none),
    ("hash", hash.map Json.string),
    ("description", if decide (description ≠ "") then some (.string description) else none),
    ("viewer", if decide (viewer ≠ .none) then some viewer.encode else none),
    ("format", if decide (format ≠ "") then some (.string format) else none),
    ("header", header.map Json.strings), ("schema", schema.map id),
    ("sources", if !sources.isEmpty then some (.array (sources.map SourceRef.encode)) else none),
    ("execution", execution.map ExecutionRef.encode)], ?_, rfl, ?_, fun g hg => ?_⟩
  · simp only [encode, Slots.field_eq, Slots.fieldIf_eq, Slots.fieldMaybe_eq, Slots.textField_eq,
      ← Slots.fields_append, List.cons_append, List.nil_append]
  · simp only [List.forall_mem_cons]
    exact ⟨hkey.isJson, hkind.isJson, htarget.isJson, hsrc.isJson, hinlined.isJson, htag.isJson,
      hhash.isJson, hdescription.isJson, hviewer.isJson, hformat.isJson, hheader.isJson,
      hschema.isJson, hsources.isJson, hexecution.isJson, nofun⟩
  · simp only [Fields.maybe, hkey.orElse hg 0 rfl, hkind.orElse hg 1 rfl, htarget.orElse hg 2 rfl,
      hsrc.orElse hg 3 rfl, hinlined.orElse hg 4 rfl, htag.orElse hg 5 rfl, hhash.orElse hg 6 rfl,
      hdescription.orElse hg 7 rfl, hviewer.orElse hg 8 rfl, hformat.orElse hg 9 rfl,
      hheader.orElse hg 10 rfl, hschema.orElse hg 11 rfl, hsources.orElse hg 12 rfl,
      hexecution.orElse hg 13 rfl]
    rfl

end ArtifactSummary

end Experiment
