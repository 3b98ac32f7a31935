import Experiment.Run.Basic

/-!
# The table of a sweep

Each child gives one row. Its parameters and outputs are cut down to their leaves, nested objects
giving dotted names; the columns are all names in the order in which they first come, parameters
before outputs, and then the state and the iteration.
-/

namespace Experiment.IterationTable

mutual
/-- Everything but an object is a leaf; a name that comes again keeps its place. -/
def leavesInto (name : String) (acc : OrderedMap Json) : Json → OrderedMap Json
  | .object fields => fieldLeavesInto name acc fields
  | .null => acc.insert name .null
  | .bool b => acc.insert name (.bool b)
  | .number n => acc.insert name (.number n)
  | .string s => acc.insert name (.string s)
  | .array items => acc.insert name (.array items)

def fieldLeavesInto (name : String) (acc : OrderedMap Json) :
    List (String × Json) → OrderedMap Json
  | [] => acc
  | (key, value) :: rest =>
    fieldLeavesInto name (leavesInto (name ++ "." ++ key) acc value) rest
end

def leaves (name : String) (m : OrderedMap Json) : OrderedMap Json :=
  fieldLeavesInto name [] m

def paramLeaves (run : Run) : OrderedMap Json :=
  leaves "param" run.spec.parameters

def outputLeaves (run : Run) : OrderedMap Json :=
  leaves "output" run.outputs

def distinct (names : List String) : List String :=
  names.foldl (fun acc n => if n ∈ acc then acc else acc ++ [n]) []

def columns (results : List Run) : List String :=
  distinct (results.flatMap fun r => OrderedMap.keys (paramLeaves r))
    ++ distinct (results.flatMap fun r => OrderedMap.keys (outputLeaves r))

def stateCell (run : Run) : Json :=
  match run.state? with
  | some s => .string s.name
  | none => .null

/-- Each column takes its cell out of those that are left. -/
def fill : List String → OrderedMap Json → List Json
  | [], _ => []
  | column :: rest, cells =>
    (OrderedMap.find? column cells).getD .null :: fill rest (OrderedMap.swapRemove column cells)

def row (columns : List String) (run : Run) : List Json :=
  fill columns (OrderedMap.extend (paramLeaves run) (outputLeaves run))
    ++ [stateCell run, Json.ofNat run.metadata.iteration]

def byIteration (results : List Run) : List Run :=
  results.mergeSort fun a b => decide (a.metadata.iteration ≤ b.metadata.iteration)

/-- The rows in the order of their iterations; without children there is no header either. -/
def ofRuns (results : List Run) : IterationTable :=
  if results.isEmpty then {}
  else
    let names := columns results
    ⟨((names ++ ["state", "iter"]).map Json.string) :: (byIteration results).map (row names)⟩

end Experiment.IterationTable
