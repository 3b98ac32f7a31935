import Experiment.Decoder
import Experiment.Json.Encoder

/-!
# Summaries of artifacts

A summary says where an artifact is and how it is shown, without its body. Summaries also come from
programs that this one runs, so the fields that only matter for display never make a summary
unreadable: a value of another kind counts as no value.
-/

namespace Experiment

inductive Viewer where
  | none
  | table
  | chart
  | webApp
deriving DecidableEq, Inhabited

namespace Viewer

def name : Viewer → String
  | .none => ""
  | .table => "table"
  | .chart => "chart"
  | .webApp => "web-app"

def ofName (s : String) : Viewer :=
  if s = "table" then .table
  else if s = "chart" then .chart
  else if s = "web-app" then .webApp
  else .none

def encode (v : Viewer) : Json :=
  .string v.name

def decode : Decoder Viewer :=
  Decoder.value.map fun v => match v with
    | .string s => ofName s
    | _ => .none

theorem ofName_name (v : Viewer) : ofName v.name = v := by
  cases v <;> simp [name, ofName]

end Viewer

structure SourceRef where
  key : String
  path : String
deriving DecidableEq, Inhabited

structure ExecutionRef where
  uid : String := ""
  name : String := ""
  project : String := ""
  iteration : Nat := 0
deriving DecidableEq, Inhabited

structure ArtifactSummary where
  key : String := ""
  /-- Empty for artifacts of no special kind. -/
  kind : String := ""
  targetPath : Option String := none
  srcPath : Option String := none
  /-- Shown in place of the target. -/
  inlined : Option String := none
  tag : String := ""
  hash : Option String := none
  description : String := ""
  viewer : Viewer := .none
  format : String := ""
  header : Option (List String) := none
  schema : Option Json := none
  sources : List SourceRef := []
  execution : Option ExecutionRef := none
deriving DecidableEq, Inhabited

namespace SourceRef

def encode (s : SourceRef) : Json :=
  .object (Json.field "key" (.string s.key) ++ Json.field "path" (.string s.path))

def decode : Decoder SourceRef := fun r d => do
  let f ← Decoder.record ["key", "path"] r d
  return { key := ← f.required "key" Decoder.text
           path := ← f.required "path" Decoder.text }

end SourceRef

/-- The bound of the numbers of iterations, which have 32 bits. -/
def iterationBound : Nat := 0x100000000

namespace ExecutionRef

def encode (e : ExecutionRef) : Json :=
  .object (Json.field "uid" (.string e.uid) ++ Json.field "name" (.string e.name)
    ++ Json.field "project" (.string e.project) ++ Json.field "iteration" (Json.ofNat e.iteration))

def decode : Decoder ExecutionRef := fun r d => do
  let f ← Decoder.record ["uid", "name", "project", "iteration"] r d
  return { uid := ← f.required "uid" Decoder.text
           name := ← f.orElse "name" "" Decoder.text
           project := ← f.orElse "project" "" Decoder.text
           iteration := ← f.orElse "iteration" 0 (Decoder.natBelow iterationBound) }

end ExecutionRef

namespace ArtifactSummary

/-- The payload that stands in the summary if there is one, else the target. -/
def location? (s : ArtifactSummary) : Option String :=
  s.inlined <|> s.targetPath

def encode (s : ArtifactSummary) : Json :=
  .object (Json.field "key" (.string s.key)
    ++ Json.textField "kind" s.kind
    ++ Json.fieldMaybe "target_path" Json.string s.targetPath
    ++ Json.fieldMaybe "src_path" Json.string s.srcPath
    ++ Json.fieldMaybe "inline" Json.string s.inlined
    ++ Json.textField "tag" s.tag
    ++ Json.fieldMaybe "hash" Json.string s.hash
    ++ Json.textField "description" s.description
    ++ Json.fieldIf (s.viewer ≠ .none) "viewer" s.viewer.encode
    ++ Json.textField "format" s.format
    ++ Json.fieldMaybe "header" Json.strings s.header
    ++ Json.fieldMaybe "schema" id s.schema
    ++ Json.fieldIf (!s.sources.isEmpty) "sources" (.array (s.sources.map SourceRef.encode))
    ++ Json.fieldMaybe "execution" ExecutionRef.encode s.execution)

/-- A text, or nothing in place of any other value. -/
def lenientText : Decoder (Option String) :=
  Decoder.value.map Json.asString?

def allStrings : List Json → Option (List String)
  | [] => some []
  | v :: vs => do
    let s ← v.asString?
    let rest ← allStrings vs
    return s :: rest

/-- A sequence of texts, or nothing in place of any other value. -/
def lenientHeader : Decoder (Option (List String)) :=
  Decoder.value.map fun v => match v with
    | .array items => allStrings items
    | _ => none

def fieldNames : List String :=
  ["key", "kind", "target_path", "src_path", "inline", "tag", "hash", "description", "viewer",
    "format", "header", "schema", "sources", "execution"]

def decode : Decoder ArtifactSummary := fun r d => do
  let f ← Decoder.record fieldNames r d
  return { key := ← f.orElse "key" "" Decoder.text
           kind := ← f.orElse "kind" "" Decoder.text
           targetPath := ← f.orElse "target_path" none lenientText
           srcPath := ← f.orElse "src_path" none lenientText
           inlined := ← f.orElse "inline" none lenientText
           tag := ← f.orElse "tag" "" Decoder.text
           hash := ← f.maybe "hash" Decoder.text
           description := ← f.orElse "description" "" Decoder.text
           viewer := ← f.orElse "viewer" .none Viewer.decode
           format := ← f.orElse "format" "" Decoder.text
           header := ← f.orElse "header" none lenientHeader
           schema := ← f.maybe "schema" Decoder.value
           sources := ← f.orElse "sources" [] (Decoder.list SourceRef.decode)
           execution := ← f.maybe "execution" ExecutionRef.decode }

end ArtifactSummary

end Experiment
