import Experiment.Json.Writer

/-!
# Tables in Markdown

A cell shows a text as it is, nothing for null and compact JSON for all else; pipes are escaped.
-/

namespace Experiment.Report.Markdown

def escapePipes (cs : List Char) : List Char :=
  cs.flatMap fun c => if c = '|' then ['\\', '|'] else [c]

def cellChars : Json → List Char
  | .null => []
  | .string s => escapePipes s.toList
  | v => escapePipes v.chars

def cellText (v : Json) : String :=
  String.ofList (cellChars v)

def line (cells : List Json) : String :=
  "| " ++ " | ".intercalate (cells.map cellText) ++ " |\n"

def rule (columns : Nat) : String :=
  "|" ++ String.join (List.replicate columns " --- |") ++ "\n"

/-- A line for the header, a rule and a line per row; nothing at all without a header. -/
def table (header : List Json) (rows : List (List Json)) : String :=
  if header.isEmpty then ""
  else line header ++ rule header.length ++ String.join (rows.map line)

end Experiment.Report.Markdown
