import Experiment.Decoder
import Experiment.FilePath
import Experiment.Json.Encoder

/-!
# Settings of a project

Where artifacts go by default, whether runs are recorded, how reports are written.
-/

namespace Experiment

structure UrlRewrite where
  scheme : String
  replacement : String
deriving DecidableEq, Inhabited

structure ReportSettings where
  enabled : Bool := false
  dir : FilePath := "/"
  urlRewrites : List UrlRewrite := [⟨"v3io:///", "http://v3io-webapi:8081/"⟩]
deriving DecidableEq, Inhabited

structure ArtifactSettings where
  /-- Record a digest of every body. -/
  calcHash : Bool := true
  /-- Refuse an upload for which there is neither a body nor a file. -/
  strictUploads : Bool := false
deriving DecidableEq, Inhabited

structure Settings where
  outputPath : String := ""
  /-- The place of the run database; empty for none. -/
  runDatabase : String := ""
  report : ReportSettings := {}
  artifacts : ArtifactSettings := {}
deriving DecidableEq, Inhabited

namespace UrlRewrite

def encode (u : UrlRewrite) : Json :=
  .object (Json.field "prefix" (.string u.scheme)
    ++ Json.field "replacement" (.string u.replacement))

def decode : Decoder UrlRewrite := fun r d => do
  let f ← Decoder.record ["prefix", "replacement"] r d
  return { scheme := ← f.required "prefix" Decoder.text
           replacement := ← f.required "replacement" Decoder.text }

end UrlRewrite

namespace ReportSettings

def encode (s : ReportSettings) : Json :=
  .object (Json.field "enabled" (.bool s.enabled)
    ++ Json.field "dir" (.string s.dir)
    ++ Json.field "url_rewrites" (.array (s.urlRewrites.map UrlRewrite.encode)))

def decode : Decoder ReportSettings := fun r d => do
  let f ← Decoder.record ["enabled", "dir", "url_rewrites"] r d
  let fallback : ReportSettings := {}
  return { enabled := ← f.orElse "enabled" false Decoder.bool
           dir := ← f.orElse "dir" fallback.dir Decoder.text
           urlRewrites :=
             ← f.orElse "url_rewrites" fallback.urlRewrites (Decoder.list UrlRewrite.decode) }

def same (s t : ReportSettings) : Bool :=
  s.enabled = t.enabled && FilePath.same s.dir t.dir && s.urlRewrites = t.urlRewrites

end ReportSettings

namespace ArtifactSettings

def encode (s : ArtifactSettings) : Json :=
  .object (Json.field "calc_hash" (.bool s.calcHash)
    ++ Json.field "strict_uploads" (.bool s.strictUploads))

def decode : Decoder ArtifactSettings := fun r d => do
  let f ← Decoder.record ["calc_hash", "strict_uploads"] r d
  return { calcHash := ← f.orElse "calc_hash" true Decoder.bool
           strictUploads := ← f.orElse "strict_uploads" false Decoder.bool }

end ArtifactSettings

namespace Settings

def encode (s : Settings) : Json :=
  .object (Json.field "output_path" (.string s.outputPath)
    ++ Json.field "rundb" (.string s.runDatabase)
    ++ Json.field "report" s.report.encode
    ++ Json.field "artifacts" s.artifacts.encode)

def decode : Decoder Settings := fun r d => do
  let f ← Decoder.record ["output_path", "rundb", "report", "artifacts"] r d
  return { outputPath := ← f.orElse "output_path" "" Decoder.text
           runDatabase := ← f.orElse "rundb" "" Decoder.text
           report := ← f.orElse "report" {} ReportSettings.decode
           artifacts := ← f.orElse "artifacts" {} ArtifactSettings.decode }

def isDefault (s : Settings) : Bool :=
  s.outputPath = "" && s.runDatabase = "" && s.report.same {} && s.artifacts = {}

end Settings

end Experiment
