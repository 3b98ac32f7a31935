import Experiment.Document

/-!
# Reading JSON text

`Json.document?` reads one value and nothing but blanks after it. `Json.parse?` also asks that
every part is readable and that no more than 127 arrays and objects lie inside one another.
-/

namespace Experiment.Json

def maxLevels : Nat := 127

namespace Token

mutual
def readValue : Nat → List Token → Option (Document × List Token)
  | 0, _ => none
  | fuel + 1, t :: ts =>
    match t with
    | .null => some (.null, ts)
    | .bool b => some (.bool b, ts)
    | .number n => some (.number n, ts)
    | .string s => some (.string s, ts)
    | .unreadableNumber => some (.unreadable, ts)
    | .unreadableString => some (.unreadable, ts)
    | .openBracket =>
      match ts with
      | .closeBracket :: ts => some (.sequence [], ts)
      | _ => do
        let (d, ts) ← readValue fuel ts
        let (ds, ts) ← readItems fuel ts
        return (.sequence (d :: ds), ts)
    | .openBrace =>
      match ts with
      | .closeBrace :: ts => some (.mapping [], ts)
      | _ => do
        let (e, ts) ← readEntry fuel ts
        let (es, ts) ← readEntries fuel ts
        return (.mapping (e :: es), ts)
    | _ => none
  | _ + 1, [] => none

def readItems : Nat → List Token → Option (List Document × List Token)
  | 0, _ => none
  | fuel + 1, ts =>
    match ts with
    | .closeBracket :: ts => some ([], ts)
    | .comma :: ts => do
      let (d, ts) ← readValue fuel ts
      let (ds, ts) ← readItems fuel ts
      return (d :: ds, ts)
    | _ => none

def readEntry : Nat → List Token → Option ((Option String × Document) × List Token)
  | 0, _ => none
  | fuel + 1, ts =>
    match ts with
    | .string key :: .colon :: ts => do
      let (d, ts) ← readValue fuel ts
      return ((some key, d), ts)
    | .unreadableString :: .colon :: ts => do
      let (d, ts) ← readValue fuel ts
      return ((none, d), ts)
    | _ => none

def readEntries : Nat → List Token → Option (List (Option String × Document) × List Token)
  | 0, _ => none
  | fuel + 1, ts =>
    match ts with
    | .closeBrace :: ts => some ([], ts)
    | .comma :: ts => do
      let (e, ts) ← readEntry fuel ts
      let (es, ts) ← readEntries fuel ts
      return (e :: es, ts)
    | _ => none
end

def document? (ts : List Token) : Option Document :=
  match readValue (2 * ts.length + 2) ts with
  | some (d, []) => some d
  | _ => none

end Token

def document? (text : String) : Option Document :=
  (Token.scan text.toList).bind Token.document?

def parse? (text : String) : Option Json :=
  (document? text).bind (Document.toJson? maxLevels)

end Experiment.Json
