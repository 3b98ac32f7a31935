import Experiment.Proofs.Codec.Artifact
import Experiment.Proofs.Timestamps
import Experiment.Run.Codec

/-!
# Runs are restored

A run may be read with fewer levels than it is written with, since its definition is always written
and its metadata too: six levels are needed for all that a status may hold besides free values.
-/

namespace Experiment
open Decoder

theorem RunState.restores_decode : Restores decode encode 0 :=
  restores_name fun s => by cases s <;> rfl

theorem Strategy.restores_decode : Restores decode encode 0 :=
  restores_name fun s => by cases s <;> rfl

theorem Timestamp.restores_decode : Restores decode encode 0 := by
  intro n doc t _ h
  obtain ⟨s, -, hs⟩ := Option.bind_eq_some_iff.1 h
  refine ⟨.string _, ?_⟩
  change (some t.text).bind parse? = some t
  rw [Option.bind_some, parse?_text hs]

theorem RunMetadata.restores_decode : Restores decode encode 2 := by
  refine restores_fields (opens_record (by decide)) rfl fun n f m hf h => ?_
  simp only [↓Decoder.bind_eq_some_iff] at h
  obtain ⟨uid, huid, name, hname, project, hproject, tag, htag, iteration, hiteration, labels,
    hlabels, h⟩ := h
  cases h
  have huid := hf.maybeText huid
  have hname := hf.text hname
  have hproject := hf.text hproject
  have htag := hf.textField htag
  have hiteration := hf.always ((restores_natBelow (by decide)).mono (by decide)) hiteration
    ⟨.number (.int 0), .int rfl, rfl⟩
  have hlabels := hf.unlessMissing restores_text.dictionary (!labels.isEmpty) (by simp) hlabels
  refine ⟨[("uid", uid.map Json.string), ("name", some (.string name)),
    ("project", some (.string project)),
    ("tag", if decide (tag ≠ "") then some (.string tag) else none),
    ("iteration", some (Json.ofNat iteration)),
    ("labels", if !labels.isEmpty then some (Json.dictionary Json.string labels) else none)],
    ?_, rfl, ?_, fun g hg => ?_⟩
  · simp only [encode, Slots.field_eq, Slots.fieldIf_eq, Slots.fieldMaybe_eq, Slots.textField_eq,
      ← Slots.fields_append, List.cons_append, List.nil_append]
  · simp only [List.forall_mem_cons]
    exact ⟨huid.isJson, hname.isJson, hproject.isJson, htag.isJson, hiteration.isJson,
      hlabels.isJson, nofun⟩
  · simp only [Fields.maybe, huid.orElse hg 0 rfl, hname.orElse hg 1 rfl, hproject.orElse hg 2 rfl,
      htag.orElse hg 3 rfl, hiteration.orElse hg 4 rfl, hlabels.orElse hg 5 rfl]
    rfl

theorem Invocation.restores_decode : Restores decode encode 2 := by
  refine restores_fields (opens_record (by decide)) rfl fun n f i hf h => ?_
  simp only [↓Decoder.bind_eq_some_iff] at h
  obtain ⟨kind, hkind, command, hcommand, args, hargs, workdir, hworkdir, h⟩ := h
  cases h
  have hkind := hf.text hkind
  have hcommand := hf.text hcommand
  have hargs := hf.always restores_text.list hargs ⟨.sequence [], .sequence nofun, rfl⟩
  have hworkdir := hf.maybeText hworkdir
  refine ⟨[("kind", some (.string kind)), ("command", some (.string command)),
    ("args", some (Json.strings args)), ("workdir", workdir.map Json.string)],
    ?_, rfl, ?_, fun g hg => ?_⟩
  · simp only [encode, Slots.field_eq, Slots.fieldMaybe_eq, ← Slots.fields_append,
      List.cons_append, List.nil_append]
  · simp only [List.forall_mem_cons]
    exact ⟨hkind.isJson, hcommand.isJson, hargs.isJson, hworkdir.isJson, nofun⟩
  · simp only [Fields.maybe, hkind.orElse hg 0 rfl, hcommand.orElse hg 1 rfl,
      hargs.orElse hg 2 rfl, hworkdir.orElse hg 3 rfl]
    rfl

theorem OutputDeclaration.restores_decode : Restores decode encode 1 := by
  refine restores_fields (opens_record (by decide)) rfl fun n f o hf h => ?_
  simp only [↓Decoder.bind_eq_some_iff] at h
  obtain ⟨key, hkey, path, hpath, h⟩ := h
  cases h
  have hkey := hf.required restores_text hkey
  have hpath := hf.always (restores_text.optional nofun).orNull hpath ⟨.null, .null, rfl⟩
  refine ⟨[("key", some (.string key)), ("path", some (Json.orNull Json.string path))],
    ?_, rfl, ?_, fun g hg => ?_⟩
  · simp only [encode, Slots.field_eq, ← Slots.fields_append, List.cons_append, List.nil_append]
  · simp only [List.forall_mem_cons]
    exact ⟨hkey.isJson, hpath.isJson, nofun⟩
  · simp only [Fields.maybe, hkey.required hg 0 rfl, hpath.orElse hg 1 rfl]
    rfl

theorem SecretSource.restores_decode : Restores decode encode 1 := by
  refine restores_fields (opens_record (by decide)) rfl fun n f s hf h => ?_
  simp only [↓Decoder.bind_eq_some_iff] at h
  obtain ⟨kind, hkind, source, hsource, h⟩ := h
  cases h
  have hkind := hf.required restores_text hkind
  have hsource := hf.required restores_value hsource
  refine ⟨[("kind", some (.string kind)), ("source", some (id source))], ?_, rfl, ?_,
    fun g hg => ?_⟩
  · simp only [encode, Slots.field_eq, ← Slots.fields_append, List.cons_append, List.nil_append, id]
  · simp only [List.forall_mem_cons]
    exact ⟨hkind.isJson, hsource.isJson, nofun⟩
  · simp only [hkind.required hg 0 rfl, hsource.required hg 1 rfl]
    rfl

theorem SweepOptions.restores_decode : Restores decode encode 1 := by
  refine restores_fields (opens_record (by decide)) rfl fun n f o hf h => ?_
  simp only [↓Decoder.bind_eq_some_iff] at h
  obtain ⟨strategy, hstrategy, selector, hselector, maxErrors, hmax, h⟩ := h
  cases h
  have hstrategy := hf.always Strategy.restores_decode hstrategy ⟨.string "grid", .string _, rfl⟩
  have hselector := hf.maybeText hselector
  have hmax := hf.unlessNone ((restores_natBelow (by decide)).optional nofun) hmax
  refine ⟨[("strategy", some strategy.encode), ("selector", selector.map Json.string),
    ("max_errors", maxErrors.map Json.ofNat)], ?_, rfl, ?_, fun g hg => ?_⟩
  · simp only [encode, Slots.field_eq, Slots.fieldMaybe_eq, ← Slots.fields_append,
      List.cons_append, List.nil_append]
  · simp only [List.forall_mem_cons]
    exact ⟨hstrategy.isJson, hselector.isJson, hmax.isJson, nofun⟩
  · simp only [Fields.maybe, hstrategy.orElse hg 0 rfl, hselector.orElse hg 1 rfl,
      hmax.orElse hg 2 rfl]
    rfl

theorem RunSpec.restores_decode : Restores decode encode 3 := by
  refine restores_fields (opens_record (by decide)) rfl fun n f s hf h => ?_
  simp only [↓Decoder.bind_eq_some_iff] at h
  obtain ⟨parameters, hparameters, runtime, hruntime, hyperparams, hhyper, options, hoptions,
    outputPath, hpath, outputArtifacts, hartifacts, inputs, hinputs, secretSources, hsecrets, h⟩ := h
  cases h
  have hparameters := hf.always (restores_object.mono (by decide)) hparameters
    ⟨.mapping [], .mapping nofun, rfl⟩
  have hruntime := hf.always Invocation.restores_decode hruntime ⟨.mapping [], .mapping nofun, rfl⟩
  have hhyper := hf.unlessMissing restores_array.dictionary (!hyperparams.isEmpty) (by simp) hhyper
  have hoptions := hf.unlessMissing (SweepOptions.restores_decode.mono (by decide))
    (!options.isDefault) (by simp [SweepOptions.isDefault]) hoptions
  have hpath := hf.text hpath
  have hartifacts := hf.always OutputDeclaration.restores_decode.list hartifacts
    ⟨.sequence [], .sequence nofun, rfl⟩
  have hinputs := hf.unlessMissing (restores_text.dictionary.mono (by decide)) (!inputs.isEmpty)
    (by simp) hinputs
  have hsecrets := hf.unlessMissing SecretSource.restores_decode.list (!secretSources.isEmpty)
    (by simp) hsecrets
  refine ⟨[("parameters", some (.object parameters)), ("runtime", some runtime.encode),
    ("hyperparams", if !hyperparams.isEmpty then some (Json.dictionary Json.array hyperparams)
      else none),
    ("hyper_param_options", if !options.isDefault then some options.encode else none),
    ("output_path", some (.string outputPath)),
    ("output_artifacts", some (.array (outputArtifacts.map OutputDeclaration.encode))),
    ("inputs", if !inputs.isEmpty then some (Json.dictionary Json.string inputs) else none),
    ("secret_sources", if !secretSources.isEmpty then
      some (.array (secretSources.map SecretSource.encode)) else none)], ?_, rfl, ?_, fun g hg => ?_⟩
  · simp only [encode, Slots.field_eq, Slots.fieldIf_eq, ← Slots.fields_append, List.cons_append,
      List.nil_append]
  · simp only [List.forall_mem_cons]
    exact ⟨hparameters.isJson, hruntime.isJson, hhyper.isJson, hoptions.isJson, hpath.isJson,
      hartifacts.isJson, hinputs.isJson, hsecrets.isJson, nofun⟩
  · simp only [hparameters.orElse hg 0 rfl, hruntime.orElse hg 1 rfl, hhyper.orElse hg 2 rfl,
      hoptions.orElse hg 3 rfl, hpath.orElse hg 4 rfl, hartifacts.orElse hg 5 rfl,
      hinputs.orElse hg 6 rfl, hsecrets.orElse hg 7 rfl]
    rfl

theorem IterationTable.restores_decode : Restores decode encode 2 := by
  intro n doc t hdoc h
  obtain ⟨lines, hlines, rfl⟩ := Option.map_eq_some_iff.1 h
  have hgives := restores_array.list n doc lines hdoc hlines
  exact ⟨hgives.1, congrArg (Option.map _) hgives.2⟩

theorem RunStatus.restores_decode : Restores decode encode 5 := by
  refine restores_fields (opens_record (by decide)) rfl fun n f s hf h => ?_
  simp only [↓Decoder.bind_eq_some_iff] at h
  obtain ⟨state, hstate, outputs, houtputs, outputArtifacts, hartifacts, startTime, hstart,
    lastUpdate, hupdate, iterations, hiterations, error, herror, bestIteration, hbest, h⟩ := h
  cases h
  have htime : RestoresSome (optional Timestamp.decode) Timestamp.encode 4 :=
    (Timestamp.restores_decode.mono (by decide)).optional nofun
  have hstate := hf.unlessNone ((RunState.restores_decode.mono (by decide)).optional nofun) hstate
  have houtputs := hf.always (restores_object.mono (by decide)) houtputs
    ⟨.mapping [], .mapping nofun, rfl⟩
  have hartifacts := hf.always ArtifactSummary.restores_decode.list hartifacts
    ⟨.sequence [], .sequence nofun, rfl⟩
  have hstart := hf.unlessNone htime hstart
  have hupdate := hf.unlessNone htime hupdate
  have hiterations := hf.unlessNone
    ((IterationTable.restores_decode.mono (by decide)).optional nofun) hiterations
  have herror := hf.maybeText herror
  have hbest := hf.unlessNone
    (((restores_natBelow (by decide)).mono (by decide)).optional nofun) hbest
  refine ⟨[("state", state.map RunState.encode), ("outputs", some (.object outputs)),
    ("output_artifacts", some (.array (outputArtifacts.map ArtifactSummary.encode))),
    ("start_time", startTime.map Timestamp.encode),
    ("last_update", lastUpdate.map Timestamp.encode),
    ("iterations", iterations.map IterationTable.encode), ("error", error.map Json.string),
    ("best_iteration", bestIteration.map Json.ofNat)], ?_, rfl, ?_, fun g hg => ?_⟩
  · simp only [encode, Slots.field_eq, Slots.fieldMaybe_eq, ← Slots.fields_append,
      List.cons_append, List.nil_append]
  · simp only [List.forall_mem_cons]
    exact ⟨hstate.isJson, houtputs.isJson, hartifacts.isJson, hstart.isJson, hupdate.isJson,
      hiterations.isJson, herror.isJson, hbest.isJson, nofun⟩
  · simp only [Fields.maybe, hstate.orElse hg 0 rfl, houtputs.orElse hg 1 rfl,
      hartifacts.orElse hg 2 rfl, hstart.orElse hg 3 rfl, hupdate.orElse hg 4 rfl,
      hiterations.orElse hg 5 rfl, herror.orElse hg 6 rfl, hbest.orElse hg 7 rfl]
    rfl

theorem Run.restores_decode : Restores decode encode 6 := by
  refine restores_fields (opens_record (by decide)) rfl fun n f run hf h => ?_
  simp only [↓Decoder.bind_eq_some_iff] at h
  obtain ⟨metadata, hmetadata, spec, hspec, status, hstatus, h⟩ := h
  cases h
  have hmetadata := hf.always (RunMetadata.restores_decode.mono (by decide)) hmetadata
    ⟨.mapping [], .mapping nofun, rfl⟩
  have hspec := hf.always (RunSpec.restores_decode.mono (by decide)) hspec
    ⟨.mapping [], .mapping nofun, rfl⟩
  have hstatus := hf.unlessNone (RunStatus.restores_decode.optional nofun) hstatus
  refine ⟨[("metadata", some metadata.encode), ("spec", some spec.encode),
    ("status", status.map RunStatus.encode)], ?_, rfl, ?_, fun g hg => ?_⟩
  · simp only [encode, Slots.field_eq, Slots.fieldMaybe_eq, ← Slots.fields_append,
      List.cons_append, List.nil_append]
  · simp only [List.forall_mem_cons]
    exact ⟨hmetadata.isJson, hspec.isJson, hstatus.isJson, nofun⟩
  · simp only [Fields.maybe, hmetadata.orElse hg 0 rfl, hspec.orElse hg 1 rfl,
      hstatus.orElse hg 2 rfl]
    rfl

end Experiment
