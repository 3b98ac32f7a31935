import Experiment.Json.Reader
import Experiment.Text

/-!
# Assignments on the command line

`NAME=VALUE` sets a parameter, `NAME=V1,V2` or `NAME=[V1,V2]` the candidates of one. A value is JSON
if it can be read as JSON, else a text.
-/

namespace Experiment.Cli

def parseValue (text : String) : Json :=
  (Json.parse? text).getD (.string text)

inductive AssignmentError where
  | notAssignment (text : String)
  | noValues (name : String)
deriving DecidableEq, Inhabited

def AssignmentError.message : AssignmentError → String
  | .notAssignment text => "expected NAME=VALUE, got '" ++ text ++ "'"
  | .noValues name => "hyperparameter '" ++ name ++ "' has no values"

/-- The trimmed name, which is not blank, and the text after the first equals sign. -/
def splitAssignment (text : String) : Except AssignmentError (String × String) :=
  match Text.splitFirst? '=' text.toList with
  | some (name, value) =>
    if (Text.trimChars name).isEmpty then .error (.notAssignment text)
    else .ok (String.ofList (Text.trimChars name), String.ofList value)
  | none => .error (.notAssignment text)

def parseParam (text : String) : Except AssignmentError (String × Json) :=
  (splitAssignment text).map fun p => (p.1, parseValue p.2)

def candidates (value : String) : List Json :=
  match Json.parse? value with
  | some (.array values) => values
  | _ => (Text.splitOn ',' value.toList).map fun part =>
      parseValue (String.ofList (Text.trimChars part))

def parseHyper (text : String) : Except AssignmentError (String × List Json) :=
  match splitAssignment text with
  | .error e => .error e
  | .ok (name, value) =>
    let values := candidates value
    if values.isEmpty then .error (.noValues name) else .ok (name, values)

end Experiment.Cli
