import Experiment.Json.Basic

/-!
# Writing records as JSON objects

A record becomes the fields that its parts contribute, in order. A part may contribute no field.
-/

namespace Experiment.Json
variable {α : Type}

def field (name : String) (value : Json) : List (String × Json) :=
  [(name, value)]

def fieldIf (present : Bool) (name : String) (value : Json) : List (String × Json) :=
  if present then [(name, value)] else []

def fieldMaybe (name : String) (encode : α → Json) : Option α → List (String × Json)
  | some a => [(name, encode a)]
  | none => []

/-- Left out when empty. -/
def textField (name : String) (s : String) : List (String × Json) :=
  fieldIf (s ≠ "") name (.string s)

def strings (xs : List String) : Json :=
  .array (xs.map Json.string)

def dictionary (encode : α → Json) (m : OrderedMap α) : Json :=
  .object (OrderedMap.mapValues encode m)

def orNull (encode : α → Json) : Option α → Json
  | some a => encode a
  | none => .null

end Experiment.Json
