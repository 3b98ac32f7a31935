import Experiment.Runtime.Basic

/-!
# Scripted runtimes

A runtime that answers by a rule, without executing anything.
-/

namespace Experiment.Runtime

def scripted (rule : Run → Except RuntimeError RawResult) (kind : String) : Runtime where
  kind := kind
  execute := fun task => Attempt.ofExcept (rule task)

/-- The task itself, with its parameters as outputs. -/
def echoResult (task : Run) : RawResult :=
  .structured (task.updateStatus fun s => { s with outputs := task.spec.parameters })

def echo (kind : String) : Runtime :=
  scripted (fun task => .ok (echoResult task)) kind

def silent (kind : String) : Runtime :=
  scripted (fun _ => .ok .empty) kind

def failing (message kind : String) : Runtime :=
  scripted (fun _ => .error (.execution message)) kind

def answering (text kind : String) : Runtime :=
  scripted (fun _ => .ok (.serialized text)) kind

end Experiment.Runtime
