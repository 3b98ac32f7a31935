import Experiment.Error
import Experiment.Run.Basic

/-!
# The best child of a sweep

A selector names an output and says whether more or less of it is better.
-/

namespace Experiment

inductive Direction where
  | max
  | min
deriving DecidableEq, Inhabited

structure Selector where
  direction : Direction
  output : String
deriving DecidableEq, Inhabited

namespace Selector

def direction? (cs : List Char) : Option Direction :=
  if cs = ['m', 'a', 'x'] then some .max
  else if cs = ['m', 'i', 'n'] then some .min
  else none

def parse (text : String) : Except RunError Selector :=
  let refuse : Except RunError Selector := .error (.configuration (.invalidSelector text))
  match Text.splitFirst? '.' (Text.trimChars text.toList) with
  | none => refuse
  | some (direction, output) =>
    match direction? direction with
    | none => refuse
    | some d => if output.isEmpty then refuse else .ok ⟨d, String.ofList output⟩

/-- What a child is ranked by: its output as a double. A failed child has no rank. -/
def score? (s : Selector) (run : Run) : Option Int :=
  if run.state? = some .error then none
  else ((OrderedMap.find? s.output run.outputs).bind Json.asNumber?).map Number.rank

def Direction.better : Direction → Int → Int → Bool
  | .max, a, b => b < a
  | .min, a, b => a < b

/-- Of equally good children the one with the lower iteration is kept. -/
def pick (s : Selector) (best : Option (Run × Int)) (run : Run) : Option (Run × Int) :=
  match s.score? run with
  | none => best
  | some value =>
    match best with
    | none => some (run, value)
    | some (current, top) =>
      if Direction.better s.direction value top
          || (value = top && run.metadata.iteration < current.metadata.iteration) then
        some (run, value)
      else best

def select (s : Selector) (results : List Run) : Option Run :=
  (results.foldl s.pick none).map Prod.fst

end Selector

end Experiment
