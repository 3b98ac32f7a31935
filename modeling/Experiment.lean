import Experiment.Artifact.Basic
import Experiment.Artifact.Manager
import Experiment.Artifact.Summary
import Experiment.Cli.Assignment
import Experiment.Cli.CommandLine
import Experiment.Cli.Dispatch
import Experiment.Cli.Printing
import Experiment.Database
import Experiment.Decimal
import Experiment.Decoder
import Experiment.Digest
import Experiment.Document
import Experiment.Error
import Experiment.Event
import Experiment.Executor
import Experiment.FilePath
import Experiment.FileTree
import Experiment.Journal
import Experiment.Json.Basic
import Experiment.Json.Encoder
import Experiment.Json.Reader
import Experiment.Json.Token
import Experiment.Json.Writer
import Experiment.Main
import Experiment.OrderedMap
import Experiment.Process
import Experiment.Project
import Experiment.Proofs.Children
import Experiment.Proofs.Confinement
import Experiment.Proofs.Course
import Experiment.Proofs.ErrorState
import Experiment.Proofs.Fate
import Experiment.Proofs.Finalization
import Experiment.Proofs.Identity
import Experiment.Proofs.IterationTable
import Experiment.Proofs.Preparation
import Experiment.Proofs.Records
import Experiment.Proofs.Sweep
import Experiment.Report.Documents
import Experiment.Report.Markdown
import Experiment.Report.Renderer
import Experiment.Run.Basic
import Experiment.Run.Codec
import Experiment.Run.State
import Experiment.Runtime.Basic
import Experiment.Runtime.Handler
import Experiment.Runtime.Process
import Experiment.Runtime.Registry
import Experiment.Runtime.Scripted
import Experiment.Secrets
import Experiment.Settings
import Experiment.Shell.Arithmetic
import Experiment.Shell.Command
import Experiment.Shell.Execution
import Experiment.Shell.Expansion
import Experiment.Shell.Pattern
import Experiment.Shell.Printf
import Experiment.Shell.Program
import Experiment.Shell.Reader
import Experiment.Shell.Session
import Experiment.Shell.Token
import Experiment.Store
import Experiment.Sweep.Controller
import Experiment.Sweep.Grid
import Experiment.Sweep.Selector
import Experiment.Sweep.Table
import Experiment.Sweep.Task
import Experiment.Text
import Experiment.Timestamp
import Experiment.Toml.Reader
import Experiment.Toml.Scalar
import Experiment.Toml.Table
import Experiment.Toml.Text
import Experiment.World
import Experiment.Yaml.Layout
import Experiment.Yaml.Node
import Experiment.Yaml.Position
import Experiment.Yaml.Reader
import Experiment.Yaml.Scalar
import Experiment.Yaml.Token
import Experiment.Yaml.Writer
import Experiment.Proofs.Commitment
import Experiment.Proofs.Announcements
import Experiment.Proofs.Misconfiguration
import Experiment.Proofs.Connections
import Experiment.Proofs.Expansion
import Experiment.Proofs.Json.Spelling
import Experiment.Proofs.Json.Numeral
import Experiment.Proofs.Json.Text
import Experiment.Proofs.Json.Document
import Experiment.Proofs.Decoding
import Experiment.Proofs.Fields
import Experiment.Proofs.Codec.Artifact
import Experiment.Proofs.Calendar
import Experiment.Proofs.Timestamps
import Experiment.Proofs.Codec.Run
import Experiment.Proofs.Codec.Event
import Experiment.Proofs.Codec.Report
import Experiment.Proofs.Codec.Settings
import Experiment.Proofs.RoundTrip
import Experiment.Proofs.Files
import Experiment.Proofs.RecordNames
import Experiment.Proofs.Directory
import Experiment.Proofs.RunRecords
import Experiment.Proofs.ArtifactRecords
import Experiment.Proofs.Leaves
import Experiment.Proofs.Json.Magnitude
import Experiment.Proofs.Selection
import Experiment.Proofs.Logging
import Experiment.Proofs.Targets
import Experiment.Proofs.Uploads
import Experiment.Proofs.Digests
import Experiment.Proofs.Leftovers
import Experiment.Proofs.Siblings
import Experiment.Proofs.Preview
import Experiment.Proofs.TableLayout
import Experiment.Proofs.ReadBack
import Experiment.Proofs.Json.Rounding
import Experiment.Proofs.Optimum
import Experiment.Proofs.IntegerOutputs
import Experiment.Proofs.TextParts
import Experiment.Proofs.Registry
import Experiment.Proofs.Declarations
import Experiment.Proofs.ChartPage
import Experiment.Proofs.MarkdownTable
import Experiment.Proofs.OutputLines
import Experiment.Proofs.Changes
import Experiment.Proofs.DisplayFields
import Experiment.Proofs.Assignments
import Experiment.Proofs.RuntimeKinds
import Experiment.Proofs.TaskCursors
import Experiment.Proofs.ByteOrder
import Experiment.Proofs.Listings
import Experiment.Proofs.DefinitionFiles
