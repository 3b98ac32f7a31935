import Experiment.Artifact.Basic
import Experiment.Database

/-!
# Logging artifacts

A manager keeps the artifacts of one run by key. Logging an artifact finds its target, enters it,
uploads what there is of it and records its summary in the run database, in this order.

The target is the first non-empty one of the path that the run declares for the key, the path that
is asked for, and the key under the output path.
-/

namespace Experiment

/-- What to do with an upload for which there is neither a body nor a file. -/
inductive UploadPolicy where
  | lenient
  | strict
deriving DecidableEq, Inhabited

structure ArtifactPolicy where
  database : Option Database := none
  calcHash : Bool := true
  upload : UploadPolicy := .lenient

/-- What is logged: something of which only the key is known, or a whole artifact. -/
inductive LogItem where
  | key (key : String)
  | artifact (artifact : Artifact)

/-- Empty texts mean that nothing is asked for. -/
structure LogOptions where
  body : Option ByteArray := none
  targetPath : String := ""
  srcPath : String := ""
  tag : String := ""
  viewer : Viewer := .none
  upload : Bool := true

/-- Joined by exactly one slash; nothing is put before a key without a base. -/
def joinPath (base key : String) : String :=
  if base = "" then key
  else
    String.ofList (Text.dropRightWhile (· = '/') base.toList
      ++ '/' :: key.toList.dropWhile (· = '/'))

structure ArtifactManager where
  policy : ArtifactPolicy := {}
  execution : ExecutionRef := {}
  runTag : String := ""
  inputs : List SourceRef := []
  outputPath : String := ""
  /-- Declared targets by key. -/
  declared : OrderedMap (Option String) := []
  registry : OrderedMap Artifact := []

namespace ArtifactManager

def setOutputPath (m : ArtifactManager) (path : String) : ArtifactManager :=
  { m with outputPath := path }

def addOverride (m : ArtifactManager) (key : String) (path : Option String) : ArtifactManager :=
  { m with declared := OrderedMap.insert key path m.declared }

/-- The output path, unless it is empty, and the declared targets of a run. -/
def loadSpec (m : ArtifactManager) (run : Run) : ArtifactManager :=
  { m with
    outputPath := if run.spec.outputPath = "" then m.outputPath else run.spec.outputPath
    declared := OrderedMap.extend m.declared
      (run.spec.outputArtifacts.map fun d => (d.key, d.path)) }

def executionOf (run : Run) : ExecutionRef :=
  { uid := run.uid
    name := run.metadata.name
    project := run.metadata.project
    iteration := run.metadata.iteration }

def inputsOf (run : Run) : List SourceRef :=
  run.spec.inputs.map fun p => ⟨p.1, p.2⟩

def forRun (run : Run) (policy : ArtifactPolicy) : ArtifactManager :=
  loadSpec { policy, execution := executionOf run, runTag := run.metadata.tag,
             inputs := inputsOf run } run

def summaries (m : ArtifactManager) : List ArtifactSummary :=
  m.registry.map fun p => p.2.baseSummary

/-- Declarations and output path go back into the spec, summaries into the status. -/
def storeSpec (m : ArtifactManager) (run : Run) : Run :=
  { run with
    spec := { run.spec with
      outputArtifacts := m.declared.map fun p => ⟨p.1, p.2⟩
      outputPath := m.outputPath }
    status := some { run.statusOrNew with outputArtifacts := m.summaries } }

def find? (m : ArtifactManager) (key : String) : Option Artifact :=
  OrderedMap.find? key m.registry

def keys (m : ArtifactManager) : List String :=
  OrderedMap.keys m.registry

def size (m : ArtifactManager) : Nat :=
  m.registry.length

def resolveTarget (m : ArtifactManager) (key requested : String) : String :=
  let otherwise := if requested ≠ "" then requested else joinPath m.outputPath key
  match OrderedMap.find? key m.declared with
  | some (some path) => if path ≠ "" then path else otherwise
  | _ => otherwise

/-- The artifact with what the options say of it, and the target that is asked for. -/
def requestOf (item : LogItem) (o : LogOptions) : Artifact × String :=
  match item with
  | .key key =>
    ({ Artifact.generic key o.body with srcPath := o.srcPath, viewer := o.viewer }, o.targetPath)
  | .artifact a =>
    ({ a with
       srcPath := if o.srcPath = "" then a.srcPath else o.srcPath
       viewer := if o.viewer = .none then a.viewer else o.viewer },
     if o.targetPath = "" then a.targetPath else o.targetPath)

def firstNonEmpty (texts : List String) : String :=
  (texts.find? fun t => t ≠ "").getD ""

/-- The bytes to upload; no bytes count as none. -/
def payload? (a : Artifact) (o : LogOptions) : Option ByteArray :=
  (o.body <|> a.body?).filter fun b => b.size ≠ 0

/-- The artifact as it is entered. -/
def entryOf (m : ArtifactManager) (item : LogItem) (o : LogOptions) : Artifact :=
  let (a, requested) := requestOf item o
  { a with
    targetPath := m.resolveTarget a.key requested
    tag := firstNonEmpty [o.tag, a.tag, m.runTag]
    hash :=
      if m.policy.calcHash then
        match payload? a o with
        | some bytes => some (Digest.hex bytes)
        | none => a.hash
      else a.hash }

def enter (m : ArtifactManager) (a : Artifact) : ArtifactManager :=
  { m with registry := OrderedMap.insert a.key a m.registry }

/-- A body goes first, then the file that the artifact names or that has its key as name. -/
def upload (m : ArtifactManager) (a : Artifact) (payload : Option ByteArray) :
    Attempt RunError Unit := do
  let (backend, path) ← Attempt.mapError RunError.storage
    (Attempt.ofExcept (Store.resolve a.targetPath))
  match payload with
  | some body => Attempt.mapError RunError.storage (Store.put backend path body)
  | none =>
    let source := if a.srcPath = "" then a.key else a.srcPath
    if ← World.isFile source then
      Attempt.mapError RunError.storage (Store.upload backend path source)
    else
      match m.policy.upload with
      | .strict => throw (.storage (.missingSource a.key))
      | .lenient => pure ()

/-- The artifact with its lineage: its own sources, or else the inputs of the run. -/
def withLineage (m : ArtifactManager) (a : Artifact) : Artifact :=
  { a with
    sources := if a.sources.isEmpty then m.inputs else a.sources
    execution := some m.execution }

/-- The manager afterwards, and what came of it. An artifact is entered even if its upload or its
record fails; it has its lineage only if it has been sent to a database. -/
def log (m : ArtifactManager) (item : LogItem) (o : LogOptions) :
    Action (ArtifactManager × Except RunError Unit) := do
  let a := m.entryOf item o
  let entered := m.enter a
  let uploaded ←
    if o.upload then (upload m a (payload? (requestOf item o).1 o)).run else pure (.ok ())
  match uploaded with
  | .error e => return (entered, .error e)
  | .ok () =>
    match m.policy.database with
    | none => return (entered, .ok ())
    | some db =>
      let a := m.withLineage a
      let stored ← (Attempt.mapError RunError.persistence
        (db.storeArtifact a.key a.fullSummary a.tag m.execution.project)).run
      return (entered.enter a, stored)

end ArtifactManager

end Experiment
