import Experiment.Sweep.Grid

/-!
# The tasks of a sweep

A task is the base run with one point of the grid laid over its parameters; iterations count from
one. `TaskCursor` goes through the tasks and can start again.
-/

namespace Experiment

def maxIteration : Nat := iterationBound - 1

structure TaskCursor where
  base : Run
  grid : Grid
  position : Nat := 0

namespace TaskCursor

def taskOf (base : Run) (i : Nat) (point : Parameters) : Run :=
  { base with
    metadata := { base.metadata with iteration := min (i + 1) maxIteration }
    spec := { base.spec with parameters := OrderedMap.extend base.spec.parameters point } }

def task? (c : TaskCursor) (i : Nat) : Option Run :=
  (c.grid.point? i).map (taskOf c.base i)

/-- The next task and the cursor behind it; at the end the cursor stays. -/
def next (c : TaskCursor) : Option Run × TaskCursor :=
  match c.task? c.position with
  | some task => (some task, { c with position := c.position + 1 })
  | none => (none, c)

def restart (c : TaskCursor) : TaskCursor :=
  { c with position := 0 }

def remaining (c : TaskCursor) : Nat :=
  c.grid.size - c.position

def rest (c : TaskCursor) : List Run :=
  (List.range' c.position c.remaining).filterMap c.task?

end TaskCursor

end Experiment
