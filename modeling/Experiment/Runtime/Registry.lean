import Experiment.Runtime.Process
import Experiment.Runtime.Scripted

/-!
# Runtimes by kind

A registry has one runtime for each kind. A run that asks for no kind is given the local one.
-/

namespace Experiment

structure RuntimeRegistry where
  runtimes : OrderedMap Runtime := []

namespace RuntimeRegistry

def defaultKind : String := "local"

/-- A later runtime of the same kind takes the place of an earlier one. -/
def register (r : RuntimeRegistry) (runtime : Runtime) : RuntimeRegistry :=
  ⟨OrderedMap.insert runtime.kind runtime r.runtimes⟩

def standard : RuntimeRegistry :=
  (({} : RuntimeRegistry).register Runtime.process).register (Runtime.echo "mock")

def find? (r : RuntimeRegistry) (kind : String) : Option Runtime :=
  OrderedMap.find? kind r.runtimes

def has (r : RuntimeRegistry) (kind : String) : Bool :=
  (r.find? kind).isSome

def resolve (r : RuntimeRegistry) (kind : String) : Except RunError Runtime :=
  match r.find? kind with
  | some runtime => .ok runtime
  | none => .error (.configuration (.unknownRuntime kind))

def kindOf (run : Run) : String :=
  let kind := Text.trim run.spec.runtime.kind
  if kind = "" then defaultKind else kind

def forRun (r : RuntimeRegistry) (run : Run) : Except RunError Runtime :=
  r.resolve (kindOf run)

def kinds (r : RuntimeRegistry) : List String :=
  (OrderedMap.keys r.runtimes).mergeSort fun a b => decide (a ≤ b)

end RuntimeRegistry

end Experiment
