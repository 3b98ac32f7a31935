import Experiment.Event
import Experiment.Project
import Experiment.Report.Markdown
import Experiment.Sweep.Task

/-!
# What the command line prints

A run is shown as its JSON or as a few lines; progress has a line for each event of interest.
-/

namespace Experiment.Cli

def padRight (width : Nat) (s : String) : String :=
  s ++ String.ofList (List.replicate (width - s.length) ' ')

def padLeft (width : Nat) (s : String) : String :=
  String.ofList (List.replicate (width - s.length) ' ') ++ s

def stateLabel : Option RunState → String
  | some s => s.name
  | none => "unknown"

def progressLine : Event → String
  | .runStarted _ name iteration => if iteration = 0 then "▶ " ++ name ++ "\n" else ""
  | .logLine _ content => "  " ++ content ++ "\n"
  | .runFinished _ _ _ => ""
  | .sweepStarted _ tasks => "▶ sweeping " ++ toString tasks ++ " iterations\n"
  | .iterationFinished _ iteration state =>
    "  iteration " ++ padLeft 3 (toString iteration) ++ ": " ++ stateLabel state ++ "\n"
  | .sweepFinished _ _ (some best) => "  best iteration: " ++ toString best ++ "\n"
  | .sweepFinished _ _ none => ""

def progress (quiet : Bool) (events : List Event) : String :=
  if quiet then "" else String.join (events.map progressLine)

def outputLines (outputs : OrderedMap Json) : String :=
  if outputs.isEmpty then ""
  else "  outputs:\n" ++ String.join (outputs.map fun p =>
    "    " ++ p.1 ++ ": " ++ p.2.compact ++ "\n")

def artifactLine (a : ArtifactSummary) : String :=
  "  artifact " ++ a.key ++ " -> " ++ a.location?.getD "(inline)" ++ "\n"

def statusText (s : RunStatus) : String :=
  (match s.error with
    | some error => "  error: " ++ error ++ "\n"
    | none => "")
  ++ outputLines s.outputs
  ++ String.join (s.outputArtifacts.map artifactLine)
  ++ (match s.iterations with
    | some table => "\n" ++ Report.Markdown.table table.header table.rows
    | none => "")

def summary (run : Run) : String :=
  "run " ++ run.metadata.name ++ "\n"
    ++ "  uid:   " ++ run.uid ++ "\n"
    ++ "  state: " ++ stateLabel run.state? ++ "\n"
    ++ (run.status.map statusText).getD ""

def taskLine (task : Run) : String :=
  "  " ++ padLeft 3 (toString task.metadata.iteration) ++ "  "
    ++ (Json.object task.spec.parameters).compact ++ "\n"

def taskList (c : TaskCursor) : String :=
  toString c.remaining ++ " tasks\n" ++ String.join (c.rest.map taskLine)

def definitionLine (d : RunDefinition) : String :=
  let kind := if d.run.spec.runtime.kind = "" then "local" else d.run.spec.runtime.kind
  let names := OrderedMap.keys d.run.spec.hyperparams
  let sweep := if names.isEmpty then "" else " sweep over " ++ Text.joinWith ", " names
  padRight 20 d.run.metadata.name ++ " " ++ padRight 8 kind ++ sweep ++ "  " ++ d.path ++ "\n"

def definitionList (p : Project) : String :=
  if p.definitions.isEmpty then "No run definitions found in .runkit/runs/\n"
  else String.join (p.definitions.map definitionLine)

end Experiment.Cli
