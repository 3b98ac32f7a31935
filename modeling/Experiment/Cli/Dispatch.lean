import Experiment.Cli.CommandLine
import Experiment.Cli.Printing
import Experiment.Runtime.Registry
import Experiment.Sweep.Controller

/-!
# Carrying out a command

A command loads the project, finds its run and prints what came of it. Progress is printed apart
from the result.
-/

namespace Experiment.Cli

inductive Failure where
  | run (cause : RunError)
  | definition (cause : ProjectError)
  | unknownRun (name : String)
  | project (root : FilePath) (cause : ProjectError)

def Failure.message : Failure → String
  | .run cause => cause.message
  | .definition cause => cause.message
  | .unknownRun name => "no run named '" ++ name ++ "' in the project"
  | .project root _ => "failed to load configuration from " ++ root

structure Outcome where
  output : String := ""
  progress : String := ""
  failure : Option Failure := none

def Outcome.failed (cause : Failure) : Outcome :=
  { failure := some cause }

/-- A path of a file goes before the name of a run. -/
def findRun (files : FileTree) (p : Project) (name : String) : Except Failure Run :=
  if files.isFile name then
    match Project.readDefinition files name with
    | .ok run => .ok run
    | .error e => .error (.definition e)
  else
    match p.find? name with
    | some run => .ok run
    | none => .error (.unknownRun name)

/-- The definition with the defaults of the project and what the command line changes. -/
def resolveTarget (files : FileTree) (p : Project) (t : Target) : Except Failure Run := do
  let run := p.withDefaults (← findRun files p t.run)
  let options := run.spec.options
  return { run with
    spec := { run.spec with
      parameters := OrderedMap.extend run.spec.parameters t.params
      hyperparams := OrderedMap.extend run.spec.hyperparams t.hyperparams
      options := { options with
        strategy := if t.list then .list else options.strategy
        selector := t.selector <|> options.selector
        maxErrors := t.maxErrors <|> options.maxErrors } } }

def withKind (o : ExecutionOptions) (run : Run) : Run :=
  let kind := if o.dryRun then "mock" else o.runtime.getD run.spec.runtime.kind
  { run with spec := { run.spec with runtime := { run.spec.runtime with kind } } }

def executorFor (p : Project) (o : ExecutionOptions) (runtime : Runtime) : Executor :=
  let x := p.executor runtime
  let x := match o.reportDir with
    | some dir =>
      { x with report := some { Report.Renderer.ofSettings p.settings.report with dir } }
    | none => x
  match o.database.bind Database.ofUrl? with
  | some db => { x with database := some db }
  | none => x

def execute (p : Project) (quiet : Bool) (o : ExecutionOptions) (run : Run) : Action Outcome := do
  match RuntimeRegistry.standard.forRun run with
  | .error e => return .failed (.run e)
  | .ok runtime =>
    let before := (← get).events.length
    let result ← (Sweep.run (executorFor p o runtime) run run.spec.hyperparams).run
    let progress := progress quiet ((← get).events.drop before)
    match result with
    | .error e => return { progress, failure := some (.run e) }
    | .ok parent =>
      return { progress,
               output := if o.json then parent.encode.pretty ++ "\n" else summary parent }

def expand (run : Run) : Outcome :=
  match Grid.expand run.spec.hyperparams run.spec.options.strategy with
  | .error e => .failed (.run e)
  | .ok grid =>
    if grid.isSweep then { output := taskList { base := run, grid } }
    else { output := "'" ++ run.metadata.name ++ "' has no hyperparameters: single run\n" }

def perform (p : Project) (quiet : Bool) (c : Command) : Action Outcome := do
  let files := (← get).files
  match c with
  | .run target options =>
    match resolveTarget files p target with
    | .error e => return .failed e
    | .ok run => execute p quiet options (withKind options run)
  | .expand target =>
    match resolveTarget files p target with
    | .error e => return .failed e
    | .ok run => return expand run
  | .list => return { output := definitionList p }

def dispatch (c : CommandLine) : Action Outcome := do
  match Project.load (← get).files c.project with
  | .error e => return .failed (.project c.project e)
  | .ok p => perform p c.quiet c.command

end Experiment.Cli
