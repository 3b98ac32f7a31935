import Experiment.Json.Reader
import Experiment.Json.Writer
import Experiment.Run.Basic

/-!
# Runs as documents

`Run.encode` and `Run.decode` and the same for the parts of a run. Fields that say nothing are left
out where the format allows it, and stand for the same value when they are read.
-/

namespace Experiment

namespace RunState

def encode (s : RunState) : Json :=
  .string s.name

def decode : Decoder RunState :=
  Decoder.name [("running", .running), ("completed", .completed), ("error", .error)]

end RunState

namespace RunMetadata

def encode (m : RunMetadata) : Json :=
  .object (Json.fieldMaybe "uid" Json.string m.uid
    ++ Json.field "name" (.string m.name)
    ++ Json.field "project" (.string m.project)
    ++ Json.textField "tag" m.tag
    ++ Json.field "iteration" (Json.ofNat m.iteration)
    ++ Json.fieldIf (!m.labels.isEmpty) "labels" (Json.dictionary Json.string m.labels))

def decode : Decoder RunMetadata := fun r d => do
  let f ← Decoder.record ["uid", "name", "project", "tag", "iteration", "labels"] r d
  return { uid := ← f.maybe "uid" Decoder.text
           name := ← f.orElse "name" "" Decoder.text
           project := ← f.orElse "project" "" Decoder.text
           tag := ← f.orElse "tag" "" Decoder.text
           iteration := ← f.orElse "iteration" 0 (Decoder.natBelow iterationBound)
           labels := ← f.orElse "labels" [] (Decoder.dictionary Decoder.text) }

end RunMetadata

namespace Invocation

def encode (i : Invocation) : Json :=
  .object (Json.field "kind" (.string i.kind)
    ++ Json.field "command" (.string i.command)
    ++ Json.field "args" (Json.strings i.args)
    ++ Json.fieldMaybe "workdir" Json.string i.workdir)

def decode : Decoder Invocation := fun r d => do
  let f ← Decoder.record ["kind", "command", "args", "workdir"] r d
  return { kind := ← f.orElse "kind" "" Decoder.text
           command := ← f.orElse "command" "" Decoder.text
           args := ← f.orElse "args" [] (Decoder.list Decoder.text)
           workdir := ← f.maybe "workdir" Decoder.text }

end Invocation

namespace OutputDeclaration

def encode (o : OutputDeclaration) : Json :=
  .object (Json.field "key" (.string o.key)
    ++ Json.field "path" (Json.orNull Json.string o.path))

def decode : Decoder OutputDeclaration := fun r d => do
  let f ← Decoder.record ["key", "path"] r d
  return { key := ← f.required "key" Decoder.text
           path := ← f.maybe "path" Decoder.text }

end OutputDeclaration

namespace SecretSource

def encode (s : SecretSource) : Json :=
  .object (Json.field "kind" (.string s.kind) ++ Json.field "source" s.source)

def decode : Decoder SecretSource := fun r d => do
  let f ← Decoder.record ["kind", "source"] r d
  return { kind := ← f.required "kind" Decoder.text
           source := ← f.required "source" Decoder.value }

end SecretSource

namespace Strategy

def encode (s : Strategy) : Json :=
  .string s.name

def decode : Decoder Strategy :=
  Decoder.name [("grid", .grid), ("list", .list)]

end Strategy

def countBound : Nat := 0x10000000000000000

namespace SweepOptions

def isDefault (o : SweepOptions) : Bool :=
  o = {}

def encode (o : SweepOptions) : Json :=
  .object (Json.field "strategy" o.strategy.encode
    ++ Json.fieldMaybe "selector" Json.string o.selector
    ++ Json.fieldMaybe "max_errors" Json.ofNat o.maxErrors)

def decode : Decoder SweepOptions := fun r d => do
  let f ← Decoder.record ["strategy", "selector", "max_errors"] r d
  return { strategy := ← f.orElse "strategy" .grid Strategy.decode
           selector := ← f.maybe "selector" Decoder.text
           maxErrors := ← f.maybe "max_errors" (Decoder.natBelow countBound) }

end SweepOptions

namespace RunSpec

def fieldNames : List String :=
  ["parameters", "runtime", "hyperparams", "hyper_param_options", "output_path",
    "output_artifacts", "inputs", "secret_sources"]

def encode (s : RunSpec) : Json :=
  .object (Json.field "parameters" (.object s.parameters)
    ++ Json.field "runtime" s.runtime.encode
    ++ Json.fieldIf (!s.hyperparams.isEmpty) "hyperparams"
        (Json.dictionary Json.array s.hyperparams)
    ++ Json.fieldIf (!s.options.isDefault) "hyper_param_options" s.options.encode
    ++ Json.field "output_path" (.string s.outputPath)
    ++ Json.field "output_artifacts" (.array (s.outputArtifacts.map OutputDeclaration.encode))
    ++ Json.fieldIf (!s.inputs.isEmpty) "inputs" (Json.dictionary Json.string s.inputs)
    ++ Json.fieldIf (!s.secretSources.isEmpty) "secret_sources"
        (.array (s.secretSources.map SecretSource.encode)))

def decode : Decoder RunSpec := fun r d => do
  let f ← Decoder.record fieldNames r d
  return { parameters := ← f.orElse "parameters" [] (Decoder.dictionary Decoder.value)
           runtime := ← f.orElse "runtime" {} Invocation.decode
           hyperparams :=
             ← f.orElse "hyperparams" [] (Decoder.dictionary (Decoder.list Decoder.value))
           options := ← f.orElse "hyper_param_options" {} SweepOptions.decode
           outputPath := ← f.orElse "output_path" "" Decoder.text
           outputArtifacts :=
             ← f.orElse "output_artifacts" [] (Decoder.list OutputDeclaration.decode)
           inputs := ← f.orElse "inputs" [] (Decoder.dictionary Decoder.text)
           secretSources := ← f.orElse "secret_sources" [] (Decoder.list SecretSource.decode) }

end RunSpec

namespace IterationTable

def encode (t : IterationTable) : Json :=
  .array (t.lines.map Json.array)

def decode : Decoder IterationTable :=
  (Decoder.list (Decoder.list Decoder.value)).map fun lines => ⟨lines⟩

end IterationTable

namespace Timestamp

def encode (t : Timestamp) : Json :=
  .string t.text

def decode : Decoder Timestamp :=
  fun r d => (Decoder.text r d).bind parse?

end Timestamp

namespace RunStatus

def fieldNames : List String :=
  ["state", "outputs", "output_artifacts", "start_time", "last_update", "iterations", "error",
    "best_iteration"]

def encode (s : RunStatus) : Json :=
  .object (Json.fieldMaybe "state" RunState.encode s.state
    ++ Json.field "outputs" (.object s.outputs)
    ++ Json.field "output_artifacts" (.array (s.outputArtifacts.map ArtifactSummary.encode))
    ++ Json.fieldMaybe "start_time" Timestamp.encode s.startTime
    ++ Json.fieldMaybe "last_update" Timestamp.encode s.lastUpdate
    ++ Json.fieldMaybe "iterations" IterationTable.encode s.iterations
    ++ Json.fieldMaybe "error" Json.string s.error
    ++ Json.fieldMaybe "best_iteration" Json.ofNat s.bestIteration)

def decode : Decoder RunStatus := fun r d => do
  let f ← Decoder.record fieldNames r d
  return { state := ← f.maybe "state" RunState.decode
           outputs := ← f.orElse "outputs" [] (Decoder.dictionary Decoder.value)
           outputArtifacts :=
             ← f.orElse "output_artifacts" [] (Decoder.list ArtifactSummary.decode)
           startTime := ← f.maybe "start_time" Timestamp.decode
           lastUpdate := ← f.maybe "last_update" Timestamp.decode
           iterations := ← f.maybe "iterations" IterationTable.decode
           error := ← f.maybe "error" Decoder.text
           bestIteration := ← f.maybe "best_iteration" (Decoder.natBelow iterationBound) }

end RunStatus

namespace Run

def encode (run : Run) : Json :=
  .object (Json.field "metadata" run.metadata.encode
    ++ Json.field "spec" run.spec.encode
    ++ Json.fieldMaybe "status" RunStatus.encode run.status)

def decode : Decoder Run := fun r d => do
  let f ← Decoder.record ["metadata", "spec", "status"] r d
  return { metadata := ← f.orElse "metadata" {} RunMetadata.decode
           spec := ← f.orElse "spec" {} RunSpec.decode
           status := ← f.maybe "status" RunStatus.decode }

def compact (run : Run) : String :=
  run.encode.compact

def parse? (text : String) : Option Run :=
  (Json.document? text).bind (decode Reading.json)

end Run

end Experiment
