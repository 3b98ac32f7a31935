import Experiment.Proofs.Fields
import Experiment.Settings

/-!
# Settings are restored

All settings are written, also those that say what they say by default.
-/

namespace Experiment
open Decoder

theorem UrlRewrite.restores_decode : Restores decode encode 1 := by
  refine restores_fields (opens_record (by decide)) rfl fun n f u hf h => ?_
  simp only [↓Decoder.bind_eq_some_iff] at h
  obtain ⟨scheme, hscheme, replacement, hreplacement, h⟩ := h
  cases h
  have hscheme := hf.required restores_text hscheme
  have hreplacement := hf.required restores_text hreplacement
  refine ⟨[("prefix", some (.string scheme)), ("replacement", some (.string replacement))],
    ?_, rfl, ?_, fun g hg => ?_⟩
  · simp only [encode, Slots.field_eq, ← Slots.fields_append, List.cons_append, List.nil_append]
  · simp only [List.forall_mem_cons]
    exact ⟨hscheme.isJson, hreplacement.isJson, nofun⟩
  · simp only [hscheme.required hg 0 rfl, hreplacement.required hg 1 rfl]
    rfl

theorem ReportSettings.restores_decode : Restores decode encode 3 := by
  refine restores_fields (opens_record (by decide)) rfl fun n f s hf h => ?_
  simp only [↓Decoder.bind_eq_some_iff] at h
  obtain ⟨enabled, henabled, dir, hdir, urlRewrites, hrewrites, h⟩ := h
  cases h
  have henabled := hf.always (restores_bool.mono (by decide)) henabled ⟨.bool false, .bool _, rfl⟩
  have hdir := hf.text hdir
  have hrewrites := hf.always UrlRewrite.restores_decode.list hrewrites
    ⟨.sequence [.sequence [.string "v3io:///", .string "http://v3io-webapi:8081/"]],
      .sequence (by simp; exact .sequence (by simp; exact ⟨.string _, .string _⟩)), rfl⟩
  refine ⟨[("enabled", some (.bool enabled)), ("dir", some (.string dir)),
    ("url_rewrites", some (.array (urlRewrites.map UrlRewrite.encode)))], ?_, rfl, ?_, fun g hg => ?_⟩
  · simp only [encode, Slots.field_eq, ← Slots.fields_append, List.cons_append, List.nil_append]
  · simp only [List.forall_mem_cons]
    exact ⟨henabled.isJson, hdir.isJson, hrewrites.isJson, nofun⟩
  · simp only [henabled.orElse hg 0 rfl, hdir.orElse hg 1 rfl, hrewrites.orElse hg 2 rfl]
    rfl

theorem ArtifactSettings.restores_decode : Restores decode encode 1 := by
  refine restores_fields (opens_record (by decide)) rfl fun n f s hf h => ?_
  simp only [↓Decoder.bind_eq_some_iff] at h
  obtain ⟨calcHash, hhash, strictUploads, hstrict, h⟩ := h
  cases h
  have hhash := hf.always restores_bool hhash ⟨.bool true, .bool _, rfl⟩
  have hstrict := hf.always restores_bool hstrict ⟨.bool false, .bool _, rfl⟩
  refine ⟨[("calc_hash", some (.bool calcHash)), ("strict_uploads", some (.bool strictUploads))],
    ?_, rfl, ?_, fun g hg => ?_⟩
  · simp only [encode, Slots.field_eq, ← Slots.fields_append, List.cons_append, List.nil_append]
  · simp only [List.forall_mem_cons]
    exact ⟨hhash.isJson, hstrict.isJson, nofun⟩
  · simp only [hhash.orElse hg 0 rfl, hstrict.orElse hg 1 rfl]
    rfl

theorem Settings.restores_decode : Restores decode encode 4 := by
  refine restores_fields (opens_record (by decide)) rfl fun n f s hf h => ?_
  simp only [↓Decoder.bind_eq_some_iff] at h
  obtain ⟨outputPath, hpath, runDatabase, hdatabase, report, hreport, artifacts, hartifacts, h⟩ := h
  cases h
  have hpath := hf.text hpath
  have hdatabase := hf.text hdatabase
  have hreport := hf.always ReportSettings.restores_decode hreport ⟨.mapping [], .mapping nofun, rfl⟩
  have hartifacts := hf.always (ArtifactSettings.restores_decode.mono (by decide)) hartifacts
    ⟨.mapping [], .mapping nofun, rfl⟩
  refine ⟨[("output_path", some (.string outputPath)), ("rundb", some (.string runDatabase)),
    ("report", some report.encode), ("artifacts", some artifacts.encode)], ?_, rfl, ?_, fun g hg => ?_⟩
  · simp only [encode, Slots.field_eq, ← Slots.fields_append, List.cons_append, List.nil_append]
  · simp only [List.forall_mem_cons]
    exact ⟨hpath.isJson, hdatabase.isJson, hreport.isJson, hartifacts.isJson, nofun⟩
  · simp only [hpath.orElse hg 0 rfl, hdatabase.orElse hg 1 rfl, hreport.orElse hg 2 rfl,
      hartifacts.orElse hg 3 rfl]
    rfl

end Experiment
