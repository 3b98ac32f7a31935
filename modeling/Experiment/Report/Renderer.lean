import Experiment.Report.Documents
import Experiment.Report.Markdown
import Experiment.Settings
import Experiment.World
import Experiment.Yaml.Writer

/-!
# Reports

The report of a run has its numeric outputs as metrics, a block for each artifact that a page can
show, the table of its iterations if it has one, and its metadata as YAML.
-/

namespace Experiment.Report

structure Renderer where
  dir : FilePath
  rewrites : List UrlRewrite := {  : ReportSettings }.urlRewrites

structure Documents where
  metrics : Metrics := {}
  blocks : Blocks := {}

namespace Renderer

def ofSettings (s : ReportSettings) : Renderer :=
  { dir := s.dir, rewrites := s.urlRewrites }

def rewriteFirst : List UrlRewrite → List Char → List Char
  | [], url => url
  | u :: us, url =>
    match Text.afterStart? u.scheme.toList url with
    | some rest => u.replacement.toList ++ rest
    | none => rewriteFirst us url

def rewriteUrl (r : Renderer) (url : String) : String :=
  String.ofList (rewriteFirst r.rewrites url.toList)

def metricOf? (p : String × Json) : Option Metric :=
  match p.2 with
  | .number n => some ⟨p.1, n⟩
  | _ => none

/-- Pages and charts are shown as they are, tables if they have a header and are kept as CSV. -/
def blockOf? (r : Renderer) (a : ArtifactSummary) : Option Block := do
  let location ← a.location?
  match a.viewer with
  | .webApp => some (.webApp (r.rewriteUrl location))
  | .chart => some (.webApp (r.rewriteUrl location))
  | .table =>
    let header ← a.header
    if header.isEmpty || !Text.startsWith ['v', 's', 'c', '.'] location.toList.reverse then none
    else some (.table "csv" header (r.rewriteUrl location))
  | .none => none

def withoutIterations (run : Run) : Run :=
  { run with status := run.status.map fun s => { s with iterations := none } }

def metadataBlock (run : Run) (titled : Bool) : Block :=
  .inlineMarkdown ((if titled then "# Run Report\n" else "") ++ "## Metadata\n"
    ++ String.ofList (List.replicate 3 (Char.ofNat 0x60)) ++ "yaml\n"
    ++ Yaml.write (withoutIterations run).encode
    ++ String.ofList (List.replicate 3 (Char.ofNat 0x60)) ++ "\n")

def tableBlock (t : IterationTable) : Block :=
  .inlineMarkdown ("# Run Report\n## Iterations\n" ++ Markdown.table t.header t.rows)

def render (r : Renderer) (run : Run) : Documents :=
  match run.status with
  | none => { blocks := ⟨[metadataBlock run true]⟩ }
  | some status =>
    let table := status.iterations.filter fun t => !t.isEmpty
    { metrics := ⟨status.outputs.filterMap metricOf?⟩
      blocks := ⟨status.outputArtifacts.filterMap r.blockOf?
        ++ (table.map tableBlock).toList ++ [metadataBlock run table.isNone]⟩ }

def writeDocument (path : FilePath) (value : Json) : Attempt RunError Unit :=
  Attempt.mapError (RunError.report path) (World.writeFile path value.compact.toUTF8)

def write (r : Renderer) (d : Documents) : Attempt RunError Unit := do
  Attempt.mapError (RunError.report r.dir) (World.createDirectories r.dir)
  writeDocument (FilePath.join r.dir metricsFile) d.metrics.encode
  writeDocument (FilePath.join r.dir blocksFile) d.blocks.encode

def renderAndWrite (r : Renderer) (run : Run) : Attempt RunError Unit :=
  r.write (r.render run)

end Renderer

end Experiment.Report
