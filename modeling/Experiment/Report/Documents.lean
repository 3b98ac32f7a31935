import Experiment.Decoder
import Experiment.Json.Encoder

/-!
# Documents for a pipeline's pages

`Metrics` lists the numbers among the outputs of a run; `Blocks` lists what a page shows of it.
-/

namespace Experiment.Report

def metricsFile : String := "mlpipeline-metrics.json"

def blocksFile : String := "mlpipeline-ui-metadata.json"

structure Metric where
  name : String
  value : Number
deriving DecidableEq

structure Metrics where
  metrics : List Metric := []
deriving DecidableEq

inductive Block where
  | webApp (source : String)
  | table (format : String) (header : List String) (source : String)
  | markdown (storage source : String)
deriving DecidableEq, Inhabited

structure Blocks where
  outputs : List Block := []
deriving DecidableEq, Inhabited

namespace Metric

def encode (m : Metric) : Json :=
  .object (Json.field "name" (.string m.name) ++ Json.field "numberValue" (.number m.value))

def decode : Decoder Metric := fun r d => do
  let f ← Decoder.record ["name", "numberValue"] r d
  return { name := ← f.required "name" Decoder.text
           value := ← f.required "numberValue" Decoder.number }

end Metric

namespace Metrics

def encode (m : Metrics) : Json :=
  .object (Json.field "metrics" (.array (m.metrics.map Metric.encode)))

def decode : Decoder Metrics := fun r d => do
  let f ← Decoder.record ["metrics"] r d
  return { metrics := ← f.required "metrics" (Decoder.list Metric.decode) }

end Metrics

namespace Block

def inlineMarkdown (source : String) : Block :=
  .markdown "inline" source

def encode : Block → Json
  | .webApp source => .object [("type", .string "web-app"), ("source", .string source)]
  | .table format header source =>
    .object [("type", .string "table"), ("format", .string format),
      ("header", Json.strings header), ("source", .string source)]
  | .markdown storage source =>
    .object [("type", .string "markdown"), ("storage", .string storage),
      ("source", .string source)]

inductive Kind where
  | webApp
  | table
  | markdown

def decodeKind : Decoder Kind := fun r d => do
  let name ← Decoder.text r d
  OrderedMap.find? name [("web-app", .webApp), ("table", .table), ("markdown", .markdown)]

def decodeContent (kind : Kind) : Decoder Block := fun r d =>
  match kind with
  | .webApp => do
    let f ← Decoder.record ["source"] r d
    return .webApp (← f.required "source" Decoder.text)
  | .table => do
    let f ← Decoder.record ["format", "header", "source"] r d
    return .table (← f.required "format" Decoder.text)
      (← f.required "header" (Decoder.list Decoder.text)) (← f.required "source" Decoder.text)
  | .markdown => do
    let f ← Decoder.record ["storage", "source"] r d
    return .markdown (← f.required "storage" Decoder.text) (← f.required "source" Decoder.text)

/-- The kind is the field `type`, or the first item; every other part has to be readable. -/
def decode : Decoder Block := fun r d =>
  match d with
  | .sequence (type :: rest) => do
    let inner ← r.inner?
    let kind ← decodeKind inner type
    discard (Document.itemsToJson? inner.levels rest)
    decodeContent kind r (.sequence rest)
  | .mapping entries => do
    let f ← Decoder.named ["type"] r d
    let kind ← f.required "type" decodeKind
    let rest := entries.filter fun e => e.1 ≠ some "type"
    discard (Document.entriesToJson? f.reading.levels rest)
    decodeContent kind r (.mapping rest)
  | _ => none

end Block

namespace Blocks

def encode (b : Blocks) : Json :=
  .object (Json.field "outputs" (.array (b.outputs.map Block.encode)))

def decode : Decoder Blocks := fun r d => do
  let f ← Decoder.record ["outputs"] r d
  return { outputs := ← f.required "outputs" (Decoder.list Block.decode) }

end Blocks

end Experiment.Report
