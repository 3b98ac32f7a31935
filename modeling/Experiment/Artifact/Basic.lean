import Experiment.Artifact.Summary
import Experiment.Json.Writer
import Experiment.Text

/-!
# Artifacts

An artifact is a named output of a run: bytes of any kind, a table, or a chart. A chart is a page
that draws its rows; the page is a template in which the data, the options and the class of the
chart are filled in one after the other.
-/

namespace Experiment

structure Chart where
  header : List Json := []
  rows : List (List Json) := []
  options : OrderedMap Json := []
  /-- The class that draws the chart. -/
  className : String := "LineChart"

namespace Chart

def page : String :=
  "\n"
    ++ "<html>\n"
    ++ "  <head>\n"
    ++ "    <script type=\"text/javascript\" src=\"https://www.gstatic.com/charts/loader.js\"></script>\n"
    ++ "    <script type=\"text/javascript\">\n"
    ++ "      google.charts.load('current', \x7b'packages':['corechart']\x7d);\n"
    ++ "      google.charts.setOnLoadCallback(drawChart);\n"
    ++ "      function drawChart() \x7b\n"
    ++ "        var data = google.visualization.arrayToDataTable($data$);\n"
    ++ "        var options = $opts$;\n"
    ++ "        var chart = new google.visualization.$chart$(document.getElementById('chart_div'));\n"
    ++ "        chart.draw(data, options);\n"
    ++ "      \x7d\n"
    ++ "    </script>\n"
    ++ "  </head>\n"
    ++ "  <body>\n"
    ++ "    <div id=\"chart_div\" style=\"width: 100%; height: 500px;\"></div>\n"
    ++ "  </body>\n"
    ++ "</html>\n"

def hasTitle (options : OrderedMap Json) : Bool :=
  match OrderedMap.find? "title" options with
  | some (.string s) => s ≠ ""
  | some .null => false
  | some _ => true
  | none => false

/-- A chart without a title is titled with the key of its artifact. -/
def titled (options : OrderedMap Json) (key : String) : OrderedMap Json :=
  if hasTitle options then options else OrderedMap.insert "title" (.string key) options

def dataJson (c : Chart) : Json :=
  .array (.array c.header :: c.rows.map Json.array)

def render (c : Chart) (key : String) : String :=
  let withData := Text.replace "$data$" c.dataJson.compact page
  let withOptions :=
    Text.replace "$opts$" (Json.object (titled c.options key)).compact withData
  Text.replace "$chart$" c.className withOptions

end Chart

structure TableBody where
  body : Option ByteArray := none
  format : String := ""
  header : List String := []
  schema : Option Json := none

inductive ArtifactKind where
  | generic (body : Option ByteArray)
  | chart (data : Chart)
  | table (data : TableBody)

structure Artifact where
  key : String
  kind : ArtifactKind
  targetPath : String := ""
  srcPath : String := ""
  /-- Content that the summary carries in place of a location. -/
  inlined : Option String := none
  tag : String := ""
  hash : Option String := none
  description : String := ""
  viewer : Viewer := .none
  sources : List SourceRef := []
  execution : Option ExecutionRef := none

namespace Artifact

def generic (key : String) (body : Option ByteArray) : Artifact :=
  { key, kind := .generic body }

/-- A line chart; the first row is the header. -/
def chart (key : String) (rows : List (List Json)) : Artifact :=
  { key
    kind := .chart { header := rows.head?.getD [], rows := rows.drop 1 }
    viewer := .chart }

def table (key : String) (body : Option ByteArray) (format : String) (header : List String) :
    Artifact :=
  { key, kind := .table { body, format, header } }

def kindName (a : Artifact) : String :=
  match a.kind with
  | .generic _ => ""
  | .chart _ => "chart"
  | .table _ => "table"

def isChart (a : Artifact) : Bool :=
  match a.kind with
  | .chart _ => true
  | _ => false

def body? (a : Artifact) : Option ByteArray :=
  match a.kind with
  | .generic body => body
  | .table t => t.body
  | .chart c => some (c.render a.key).toUTF8

def nonEmpty? (s : String) : Option String :=
  if s = "" then none else some s

def baseSummary (a : Artifact) : ArtifactSummary :=
  let summary : ArtifactSummary :=
    { key := a.key
      kind := a.kindName
      targetPath := nonEmpty? a.targetPath
      srcPath := nonEmpty? a.srcPath
      inlined := a.inlined
      tag := a.tag
      hash := a.hash
      description := a.description
      viewer := a.viewer }
  match a.kind with
  | .table t => { summary with format := t.format, header := some t.header, schema := t.schema }
  | _ => summary

/-- The summary in the run database: it also says where the artifact comes from. -/
def fullSummary (a : Artifact) : ArtifactSummary :=
  { a.baseSummary with sources := a.sources, execution := a.execution }

end Artifact

end Experiment
