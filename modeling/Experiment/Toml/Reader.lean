import Experiment.Toml.Scalar
import Experiment.Toml.Table

/-!
# Reading TOML

`Toml.document?` reads a text as statements and builds the table that they describe.
-/

namespace Experiment.Toml

mutual

def value (fuel depth : Nat) (cs : List Char) : Option (Document × List Char) :=
  match fuel with
  | 0 => none
  | fuel + 1 =>
    match cs with
    | [] => none
    | c :: rest =>
      if c = '"' || c = quote then (string? cs).map fun p => (.string p.1, p.2)
      else if c = '[' then
        if depthLimit ≤ depth + 1 then none
        else (elements fuel (depth + 1) rest).map fun p => (.sequence p.1, p.2)
      else if c = '\x7b' then
        if depthLimit ≤ depth + 1 then none
        else
          match skipSpaces rest with
          | '\x7d' :: rest => some (.mapping [], rest)
          | rest =>
            match assignments fuel (depth + 1) rest with
            | some (found, rest) => (inlineTable found).map fun d => (d, rest)
            | none => none
      else if c = 't' then (Text.afterStart? "true".toList cs).map fun rest => (.bool true, rest)
      else if c = 'f' then (Text.afterStart? "false".toList cs).map fun rest => (.bool false, rest)
      else if startsMoment cs then moment? cs
      else number? cs

def elements (fuel depth : Nat) (cs : List Char) : Option (List Document × List Char) :=
  match fuel with
  | 0 => none
  | fuel + 1 =>
    match skipLines cs with
    | ']' :: rest => some ([], rest)
    | cs =>
      match value fuel depth cs with
      | none => none
      | some (first, rest) =>
        match skipLines rest with
        | ']' :: rest => some ([first], rest)
        | ',' :: rest => (elements fuel depth rest).map fun p => (first :: p.1, p.2)
        | _ => none

def assignments (fuel depth : Nat) (cs : List Char) :
    Option (List (List String × Document) × List Char) :=
  match fuel with
  | 0 => none
  | fuel + 1 =>
    match key? cs with
    | some (path, '=' :: rest) =>
      match value fuel depth (skipSpaces rest) with
      | none => none
      | some (v, rest) =>
        match skipSpaces rest with
        | '\x7d' :: rest => some ([(path, v)], rest)
        | ',' :: rest => (assignments fuel depth rest).map fun p => ((path, v) :: p.1, p.2)
        | _ => none
    | _ => none

end

def statement? (cs : List Char) : Option (Statement × List Char) :=
  match cs with
  | '[' :: '[' :: rest =>
    match key? rest with
    | some (path, ']' :: ']' :: rest) => (lineEnd? rest).map fun rest => (.element path, rest)
    | _ => none
  | '[' :: rest =>
    match key? rest with
    | some (path, ']' :: rest) => (lineEnd? rest).map fun rest => (.table path, rest)
    | _ => none
  | cs =>
    match key? cs with
    | some (path, '=' :: rest) =>
      match value (cs.length + 1) 0 (skipSpaces rest) with
      | some (v, rest) => (lineEnd? rest).map fun rest => (.assignment path v, rest)
      | none => none
    | _ => none

def statements : Nat → List Char → Option (List Statement)
  | 0, _ => none
  | fuel + 1, cs =>
    match skipLines cs with
    | [] => some []
    | cs =>
      if (skipComment cs).isEmpty then some []
      else
        match statement? cs with
        | some (s, rest) => (statements fuel rest).map (s :: ·)
        | none => none

/-- A byte order mark at the start says nothing. -/
def withoutMark : List Char → List Char
  | c :: rest => if c = '\ufeff' then rest else c :: rest
  | [] => []

def document? (text : String) : Option Document := do
  let cs := withoutMark text.toList
  documentOf (← statements (cs.length + 1) cs)

end Experiment.Toml
