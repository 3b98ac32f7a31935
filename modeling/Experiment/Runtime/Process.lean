import Experiment.Run.State
import Experiment.Runtime.Basic

/-!
# The runtime of local processes

A task is handed to its command as JSON in an environment variable. The lines that the command
prints are forwarded as events, and the last one is the text of the result. A command that fails
makes the task one of error.
-/

namespace Experiment

/-- One item of what a process puts out: its lines, then its end. -/
inductive OutputItem where
  | line (text : String)
  | exit (success : Bool) (code : Option Nat) (errors : String)
deriving DecidableEq

namespace OutputItem

def taskVariable : String := "RUNKIT_EXEC_CONFIG"

/-- The pieces between line breaks, each with whether a line break ended it. A last piece that is
empty is no line. -/
def splitLines (bytes : List UInt8) : List (List UInt8 × Bool) :=
  match bytes with
  | [] => []
  | b :: rest =>
    if b = 10 then ([], true) :: splitLines rest
    else
      match splitLines rest with
      | [] => [([b], false)]
      | (piece, ended) :: pieces => (b :: piece, ended) :: pieces

def withoutReturn (line : List UInt8) : List UInt8 :=
  if line.getLast? = some 13 then line.dropLast else line

def lineText? (p : List UInt8 × Bool) : Option String :=
  String.fromUTF8? ⟨(if p.2 then withoutReturn p.1 else p.1).toArray⟩

/-- Up to the first line that is no text; blank lines are left out. -/
def linesOf : List (List UInt8 × Bool) → List String
  | [] => []
  | p :: rest =>
    match lineText? p with
    | none => []
    | some text => if Text.isBlankText text then linesOf rest else text :: linesOf rest

def exitOf (p : ProcessOutput) : OutputItem :=
  let errors := (String.fromUTF8? p.errors).getD ""
  match p.status with
  | .code n => .exit (n = 0) (some n) errors
  | .signal _ => .exit false none errors

def ofOutput (p : ProcessOutput) : List OutputItem :=
  (linesOf (splitLines p.output.data.toList)).map .line ++ [exitOf p]

def stream (command : String) (arguments : List String) (workdir : Option String)
    (task : String) : Attempt RuntimeError (List OutputItem) := do
  let output ← Attempt.mapError (fun e => RuntimeError.spawn command e.message)
    (Process.launch { command, arguments, workdir, environment := [(taskVariable, task)] })
  return ofOutput output

end OutputItem

namespace Runtime

def exitText : Option Nat → String
  | some n => toString n
  | none => "signal"

/-- The result after these items, `last` being the line before them. -/
def followItems (task : Run) (last : Option String) :
    List OutputItem → Attempt RuntimeError RawResult
  | [] => return match last with
    | some line => .serialized line
    | none => .empty
  | .line text :: rest => do
    World.emit (.logLine task.uid text)
    followItems task (some text) rest
  | .exit true _ _ :: rest => followItems task last rest
  | .exit false code errors :: _ => do
    let failed ← task.fail
      ("process exited with " ++ exitText code ++ ": " ++ Text.trim errors)
    return .structured failed

def answer (task : Run) (output : ProcessOutput) : Attempt RuntimeError RawResult :=
  followItems task none (OutputItem.ofOutput output)

def hasCommand (task : Run) : Except RuntimeError Unit :=
  if Text.isBlankText task.spec.runtime.command then .error (.missingCommand "local")
  else .ok ()

def process : Runtime where
  kind := "local"
  validate := hasCommand
  execute := fun task => do
    Attempt.ofExcept (hasCommand task)
    let items ← OutputItem.stream task.spec.runtime.command task.spec.runtime.args
      task.spec.runtime.workdir task.encode.compact
    followItems task none items

end Runtime

end Experiment
