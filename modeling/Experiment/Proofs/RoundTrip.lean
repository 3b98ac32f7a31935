import Experiment.Proofs.Codec.Event
import Experiment.Proofs.Codec.Report
import Experiment.Proofs.Codec.Settings

/-!
# What was read is read again from what is written of it

Runs, statuses, summaries, events, metrics, blocks and settings go over the wire as JSON. A value that
was read from any text, in which fields may have been left out, unknown or in order without names, is
read again from the text that is written of it, as far as the doubles in it are read back from
theirs; so writing what was read changes a text only once. Nothing is asked of its moments.
-/

namespace Experiment

inductive Wire where
  | run
  | status
  | summary
  | event
  | metrics
  | blocks
  | settings

namespace Wire

def Value : Wire → Type
  | .run => Run
  | .status => RunStatus
  | .summary => ArtifactSummary
  | .event => Event
  | .metrics => Report.Metrics
  | .blocks => Report.Blocks
  | .settings => Settings

def encode : (w : Wire) → w.Value → Json
  | .run => Run.encode
  | .status => RunStatus.encode
  | .summary => ArtifactSummary.encode
  | .event => Event.encode
  | .metrics => Report.Metrics.encode
  | .blocks => Report.Blocks.encode
  | .settings => Settings.encode

def decode : (w : Wire) → Decoder w.Value
  | .run => Run.decode
  | .status => RunStatus.decode
  | .summary => ArtifactSummary.decode
  | .event => Event.decode
  | .metrics => Report.Metrics.decode
  | .blocks => Report.Blocks.decode
  | .settings => Settings.decode

def parse? (w : Wire) (text : String) : Option w.Value :=
  (Json.document? text).bind (w.decode Reading.json)

def compact (w : Wire) (x : w.Value) : String :=
  (w.encode x).compact

/-- Reads a text and writes what was read. -/
def rewrite? (w : Wire) (text : String) : Option String :=
  (w.parse? text).map w.compact

variable {w : Wire} {text : String} {x : w.Value}

theorem restores_decode (w : Wire) : w.decode.Restores w.encode 6 := by
  cases w with
  | run => exact Run.restores_decode
  | status => exact RunStatus.restores_decode.mono (by decide)
  | summary => exact ArtifactSummary.restores_decode.mono (by decide)
  | event => exact Event.restores_decode.mono (by decide)
  | metrics => exact Report.Metrics.restores_decode.mono (by decide)
  | blocks => exact Report.Blocks.restores_decode.mono (by decide)
  | settings => exact Settings.restores_decode.mono (by decide)

theorem gives_encode (h : w.parse? text = some x) : w.decode.Gives Reading.json (w.encode x) x := by
  obtain ⟨doc, hdoc, hx⟩ := Option.bind_eq_some_iff.1 h
  exact w.restores_decode 121 doc x (Json.isJson_of_document? hdoc) hx

theorem lexes_of_parse? (h : w.parse? text = some x) (hf : (w.encode x).FloatsReadBack) :
    ∀ n ∈ (w.encode x).numbers, Json.Token.Lexes n :=
  Json.lexes_of_mem_numbers (gives_encode h).1 hf

theorem parse?_compact (h : w.parse? text = some x) (hf : (w.encode x).FloatsReadBack) :
    w.parse? (w.compact x) = some x := by
  rw [parse?, compact, Json.document?_compact (lexes_of_parse? h hf), Option.bind_some]
  exact (gives_encode h).2

theorem parse?_pretty (h : w.parse? text = some x) (hf : (w.encode x).FloatsReadBack) :
    w.parse? (w.encode x).pretty = some x := by
  rw [parse?, Json.document?_pretty (lexes_of_parse? h hf), Option.bind_some]
  exact (gives_encode h).2

/-- A value that was read is read again from its own text, and writing what was read changes a text
only once. -/
theorem reads_back (w : Wire) (text : String) (x : w.Value) (h : w.parse? text = some x)
    (hf : (w.encode x).FloatsReadBack) :
    w.parse? (w.compact x) = some x ∧ (w.rewrite? text).bind w.rewrite? = w.rewrite? text := by
  have hread := parse?_compact h hf
  refine ⟨hread, ?_⟩
  rw [rewrite?, h, Option.map_some, Option.bind_some, rewrite?, hread, Option.map_some]

/-- A run in order without names, with an unknown field, a half and a leap second. -/
theorem reads_back_leap_second :
    let text := "[\x7b\"name\": \"a\", \"extra\": [1]\x7d, [\x7b\"p\": 0.5\x7d], " ++
      "\x7b\"start_time\": \"2024-2-29 12:30:60+01:00\"\x7d]"
    let run : Run :=
      { metadata := { name := "a" }
        spec := { parameters := [("p", .number (.float 0x3FE0000000000000))] }
        status := some { startTime := some ⟨1709206259, 1000000000⟩ } }
    Wire.run.parse? text = some run ∧ Wire.run.parse? (Wire.run.compact run) = some run := by
  intro text run
  have hread : Wire.run.parse? text = some run := by
    change Run.parse? text = some run
    decide +kernel
  have hnumbers : (Wire.run.encode run).numbers = [.int 0, .float 0x3FE0000000000000] := by
    change run.encode.numbers = _
    decide +kernel
  refine ⟨hread, (reads_back .run text run hread fun bits hbits => ?_).1⟩
  obtain rfl : bits = 0x3FE0000000000000 := by simpa [hnumbers] using hbits
  change Json.parse? _ = _
  decide +kernel

end Wire

end Experiment
