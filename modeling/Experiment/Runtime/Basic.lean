import Experiment.World

/-!
# Runtimes

A runtime executes tasks of one kind. It first says whether a run is complete enough to be executed;
executing a task gives a raw result: nothing, a run, or the text of a run.
-/

namespace Experiment

inductive RawResult where
  | empty
  | structured (run : Run)
  | serialized (text : String)

/-- The run that a result stands for, unless its text is none. Blank text and a run in which nothing
is set are no result. -/
def RawResult.parse : RawResult → Except String (Option Run)
  | .empty => .ok none
  | .structured run => .ok (if run.isEmpty then none else some run)
  | .serialized text =>
    if Text.isBlankText text then .ok none
    else
      match Run.parse? text with
      | some run => .ok (if run.isEmpty then none else some run)
      | none => .error text

structure Runtime where
  kind : String
  validate : Run → Except RuntimeError Unit := fun _ => .ok ()
  execute : Run → Attempt RuntimeError RawResult

end Experiment
