import Experiment.Artifact.Manager
import Experiment.Executor
import Experiment.Toml.Reader
import Experiment.Yaml.Reader

/-!
# Projects

A project keeps its settings in `.runkit/config.toml` and the definitions of its runs in
`.runkit/runs/`, one in a file. What is missing has its defaults.
-/

namespace Experiment

inductive ProjectError where
  | unreadable (path : FilePath) (source : OsError)
  | settings (path : FilePath)
  | definition (path : FilePath)
  | directory (path : FilePath) (source : OsError)
  | duplicate (name : String) (first second : FilePath)
  | invalid (path : FilePath) (reason : String)
deriving DecidableEq

namespace ProjectError

def place : ProjectError → String
  | .unreadable path _ => "Failed to read config file at " ++ path
  | .settings path => "Failed to parse TOML file at " ++ path
  | .definition path => "Failed to parse run definition at " ++ path
  | .directory path _ => "Failed to traverse directory " ++ path
  | .duplicate name _ _ => "Run '" ++ name ++ "' is defined twice"
  | .invalid path _ => "Invalid configuration in " ++ path

def detail : ProjectError → String
  | .unreadable _ source => source.message
  | .settings _ => "the text is no TOML of the settings"
  | .definition _ => "the text is no YAML of a run"
  | .directory _ source => source.message
  | .duplicate _ first second => first ++ " and " ++ second
  | .invalid _ reason => reason

def message (e : ProjectError) : String :=
  e.place ++ ": " ++ e.detail

end ProjectError

structure RunDefinition where
  path : FilePath
  run : Run

structure Project where
  settings : Settings := {}
  definitions : List RunDefinition := []

namespace Project

def directoryName : String := ".runkit"

/-- A definition without a name is named after its file. -/
def named (path : FilePath) (run : Run) : Run :=
  if Text.isBlankText run.metadata.name then
    { run with metadata := { run.metadata with name := (FilePath.stem? path).getD "" } }
  else run

/-- One definition; only tasks of a sweep have an iteration. -/
def readDefinition (files : FileTree) (path : FilePath) : Except ProjectError Run :=
  match files.readText path with
  | .error e => .error (.unreadable path e)
  | .ok text =>
    match (Yaml.document? text).bind (Run.decode Reading.yaml) with
    | none => .error (.definition path)
    | some run =>
      let run := named path run
      if run.metadata.iteration = 0 then .ok run
      else .error (.invalid path "run definitions must not set metadata.iteration")

def readSettings (files : FileTree) (directory : FilePath) : Except ProjectError Settings :=
  let path := FilePath.join directory "config.toml"
  if files.exists? path then
    match files.readText path with
    | .error e => .error (.unreadable path e)
    | .ok text =>
      match (Toml.document? text).bind (Settings.decode Reading.toml) with
      | some s => .ok s
      | none => .error (.settings path)
  else .ok {}

def isDefinition (path : FilePath) (e : Entry) : Bool :=
  match e with
  | .file _ => FilePath.extension? path = some "yaml" || FilePath.extension? path = some "yml"
  | .directory => false

/-- The files of definitions, in the byte order of their names. -/
def definitionFiles (files : FileTree) (directory : FilePath) : List FilePath :=
  match files.locate directory with
  | .error _ => []
  | .ok l =>
    let found := (files.children l).filterMap fun c =>
      let path := FilePath.join directory c.1
      if isDefinition path c.2 then some (c.1, path) else none
    (found.mergeSort fun a b => decide (a.1 ≤ b.1)).map Prod.snd

/-- The definitions so far are `known`, the latest first. -/
def readDefinitions (files : FileTree) (known : List RunDefinition) :
    List FilePath → Except ProjectError (List RunDefinition)
  | [] => .ok known.reverse
  | path :: rest => do
    let run ← readDefinition files path
    match known.find? fun d => d.run.metadata.name = run.metadata.name with
    | some d => .error (.duplicate run.metadata.name d.path path)
    | none => readDefinitions files (⟨path, run⟩ :: known) rest

def load (files : FileTree) (root : FilePath) : Except ProjectError Project := do
  let directory := FilePath.join root directoryName
  if files.exists? directory then
    let settings ← readSettings files directory
    let definitions ←
      readDefinitions files [] (definitionFiles files (FilePath.join directory "runs"))
    return { settings, definitions }
  else return {}

def find? (p : Project) (name : String) : Option Run :=
  (p.definitions.find? fun d => d.run.metadata.name = name).map RunDefinition.run

def names (p : Project) : List String :=
  p.definitions.map fun d => d.run.metadata.name

/-- A run without an output path has that of the project. -/
def withDefaults (p : Project) (run : Run) : Run :=
  if run.spec.outputPath = "" then
    { run with spec := { run.spec with outputPath := p.settings.outputPath } }
  else run

def database? (p : Project) : Option Database :=
  Database.ofUrl? p.settings.runDatabase

def renderer? (p : Project) : Option Report.Renderer :=
  if p.settings.report.enabled then some (.ofSettings p.settings.report) else none

def artifactPolicy (p : Project) : ArtifactPolicy :=
  { database := p.database?
    calcHash := p.settings.artifacts.calcHash
    upload := if p.settings.artifacts.strictUploads then .strict else .lenient }

def executor (p : Project) (runtime : Runtime) : Executor :=
  { runtime, database := p.database?, report := p.renderer? }

end Project

end Experiment
