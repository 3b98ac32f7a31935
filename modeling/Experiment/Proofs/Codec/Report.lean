import Experiment.Proofs.Fields
import Experiment.Report.Documents

/-!
# The documents for a pipeline's pages are restored

A block says its kind in the field `type`, among its other fields. Every other part of a block has
to be readable, whether it is used or not, and all that is written of a block is.
-/

namespace Experiment.Report
open Decoder

theorem Metric.restores_decode : Restores decode encode 1 := by
  refine restores_fields (opens_record (by decide)) rfl fun n f m hf h => ?_
  simp only [↓Decoder.bind_eq_some_iff] at h
  obtain ⟨name, hname, value, hvalue, h⟩ := h
  cases h
  have hname := hf.required restores_text hname
  have hvalue := hf.required restores_number hvalue
  refine ⟨[("name", some (.string name)), ("numberValue", some (.number value))], ?_, rfl, ?_,
    fun g hg => ?_⟩
  · simp only [encode, Slots.field_eq, ← Slots.fields_append, List.cons_append, List.nil_append]
  · simp only [List.forall_mem_cons]
    exact ⟨hname.isJson, hvalue.isJson, nofun⟩
  · simp only [hname.required hg 0 rfl, hvalue.required hg 1 rfl]
    rfl

theorem Metrics.restores_decode : Restores decode encode 3 := by
  refine restores_fields (opens_record (by decide)) rfl fun n f m hf h => ?_
  simp only [↓Decoder.bind_eq_some_iff] at h
  obtain ⟨metrics, hmetrics, h⟩ := h
  cases h
  have hmetrics := hf.required Metric.restores_decode.list hmetrics
  refine ⟨[("metrics", some (.array (metrics.map Metric.encode)))], ?_, rfl, ?_, fun g hg => ?_⟩
  · simp only [encode, Slots.field_eq]
  · simp only [List.forall_mem_cons]
    exact ⟨hmetrics.isJson, nofun⟩
  · simp only [hmetrics.required hg 0 rfl]
    rfl

namespace Block

def Kind.name : Kind → String
  | .webApp => "web-app"
  | .table => "table"
  | .markdown => "markdown"

def kind : Block → Kind
  | .webApp .. => .webApp
  | .table .. => .table
  | .markdown .. => .markdown

/-- What a block says besides its kind. -/
def slots : Block → Slots
  | .webApp source => [("source", some (.string source))]
  | .table format header source =>
    [("format", some (.string format)), ("header", some (Json.strings header)),
      ("source", some (.string source))]
  | .markdown storage source =>
    [("storage", some (.string storage)), ("source", some (.string source))]

def content (b : Block) : Json :=
  .object b.slots.fields

theorem encode_eq_fields (b : Block) :
    b.encode = .object (("type", .string b.kind.name) :: b.slots.fields) := by
  cases b <;> rfl

theorem restores_webApp : Restores (decodeContent .webApp) content 1 := by
  refine restores_fields (opens_record (by decide)) rfl fun n f b hf h => ?_
  simp only [↓Decoder.bind_eq_some_iff] at h
  obtain ⟨source, hsource, h⟩ := h
  cases h
  have hsource := hf.required restores_text hsource
  refine ⟨_, rfl, rfl, ?_, fun g hg => ?_⟩
  · simp only [slots, List.forall_mem_cons]
    exact ⟨hsource.isJson, nofun⟩
  · simp only [hsource.required hg 0 rfl]
    rfl

theorem restores_table : Restores (decodeContent .table) content 2 := by
  refine restores_fields (opens_record (by decide)) rfl fun n f b hf h => ?_
  simp only [↓Decoder.bind_eq_some_iff] at h
  obtain ⟨format, hformat, header, hheader, source, hsource, h⟩ := h
  cases h
  have htext : Restores text .string 1 := restores_text.mono (by decide)
  have hformat := hf.required htext hformat
  have hheader := hf.required restores_text.list hheader
  have hsource := hf.required htext hsource
  refine ⟨_, rfl, rfl, ?_, fun g hg => ?_⟩
  · simp only [slots, List.forall_mem_cons]
    exact ⟨hformat.isJson, hheader.isJson, hsource.isJson, nofun⟩
  · simp only [hformat.required hg 0 rfl, hheader.required hg 1 rfl, hsource.required hg 2 rfl]
    rfl

theorem restores_markdown : Restores (decodeContent .markdown) content 1 := by
  refine restores_fields (opens_record (by decide)) rfl fun n f b hf h => ?_
  simp only [↓Decoder.bind_eq_some_iff] at h
  obtain ⟨storage, hstorage, source, hsource, h⟩ := h
  cases h
  have hstorage := hf.required restores_text hstorage
  have hsource := hf.required restores_text hsource
  refine ⟨_, rfl, rfl, ?_, fun g hg => ?_⟩
  · simp only [slots, List.forall_mem_cons]
    exact ⟨hstorage.isJson, hsource.isJson, nofun⟩
  · simp only [hstorage.required hg 0 rfl, hsource.required hg 1 rfl]
    rfl

theorem restores_content (k : Kind) : Restores (decodeContent k) content 2 := by
  cases k with
  | webApp => exact restores_webApp.mono (by decide)
  | table => exact restores_table
  | markdown => exact restores_markdown.mono (by decide)

theorem kind_of_decodeContent {k : Kind} {r : Reading} {doc : Document} {b : Block}
    (h : decodeContent k r doc = some b) : b.kind = k := by
  cases k
  case webApp =>
    simp only [decodeContent, ↓Decoder.bind_eq_some_iff] at h
    obtain ⟨_, -, _, -, h⟩ := h
    cases h
    rfl
  case table =>
    simp only [decodeContent, ↓Decoder.bind_eq_some_iff] at h
    obtain ⟨_, -, _, -, _, -, _, -, h⟩ := h
    cases h
    rfl
  case markdown =>
    simp only [decodeContent, ↓Decoder.bind_eq_some_iff] at h
    obtain ⟨_, -, _, -, _, -, h⟩ := h
    cases h
    rfl

theorem exists_of_decode {r : Reading} {doc : Document} {b : Block} (hdoc : doc.IsJson)
    (h : decode r doc = some b) : ∃ k rest, rest.IsJson ∧ decodeContent k r rest = some b := by
  cases hdoc with
  | @sequence items hitems =>
      cases items with
      | nil => cases h
      | cons type rest =>
          simp only [decode, ↓Decoder.bind_eq_some_iff] at h
          obtain ⟨inner, -, k, -, _, -, h⟩ := h
          exact ⟨k, _, .sequence fun d hd => hitems d (List.mem_cons_of_mem _ hd), h⟩
  | mapping hentries =>
      simp only [decode, ↓Decoder.bind_eq_some_iff] at h
      obtain ⟨f, -, k, -, _, -, h⟩ := h
      exact ⟨k, _, .mapping fun e he => hentries e (List.mem_filter.1 he).1, h⟩
  | _ => cases h

theorem gives_slots (n : Nat) (b : Block) :
    ∀ f ∈ b.slots.fields, value.Gives ⟨.json, n + 1⟩ f.2 f.2 := by
  have htext : ∀ s : String, value.Gives ⟨.json, n + 1⟩ (.string s) (.string s) :=
    fun s => ⟨.string s, rfl⟩
  cases b with
  | webApp source => exact List.forall_mem_cons.2 ⟨htext source, nofun⟩
  | table format header source =>
      exact List.forall_mem_cons.2 ⟨htext format, List.forall_mem_cons.2
        ⟨gives_value_strings n header, List.forall_mem_cons.2 ⟨htext source, nofun⟩⟩⟩
  | markdown storage source =>
      exact List.forall_mem_cons.2 ⟨htext storage, List.forall_mem_cons.2 ⟨htext source, nofun⟩⟩

theorem named_type (n : Nat) (b : Block) :
    named ["type"] ⟨.json, n + 1⟩ (Document.ofJson b.encode) =
      some ⟨⟨.json, n⟩, [("type", .string b.kind.name)]⟩ := by
  cases b <;> rfl

theorem filter_type (b : Block) :
    (Document.entriesOfJson (("type", .string b.kind.name) :: b.slots.fields)).filter
      (fun e => e.1 ≠ some "type") = Document.entriesOfJson b.slots.fields := by
  cases b <;> rfl

theorem decodeKind_name (r : Reading) (k : Kind) : decodeKind r (.string k.name) = some k := by
  cases k <;> rfl

theorem decode_encode (n : Nat) (b : Block) : decode ⟨.json, n + 2⟩ (Document.ofJson b.encode) =
    decodeContent b.kind ⟨.json, n + 2⟩ (Document.ofJson b.content) := by
  have hnamed := named_type (n + 1) b
  have hrest := entriesToJson?_entriesOfJson (gives_slots n b)
  rw [encode_eq_fields] at hnamed ⊢
  change (named ["type"] ⟨.json, n + 2⟩ _).bind _ = _
  rw [hnamed, Option.bind_some]
  change (decodeKind _ (.string b.kind.name)).bind _ = _
  rw [decodeKind_name, Option.bind_some, filter_type]
  dsimp only
  rw [hrest]
  rfl

theorem restores_decode : Restores decode encode 2 := by
  intro n doc b hdoc h
  obtain ⟨k, rest, hrest, hread⟩ := exists_of_decode hdoc h
  obtain ⟨hjson, hgives⟩ := restores_content k n rest b hrest hread
  refine ⟨?_, ?_⟩
  · rw [encode_eq_fields]
    cases hjson with
    | mapping hentries =>
        refine .mapping ?_
        rw [Document.entriesOfJson, List.forall_mem_cons]
        exact ⟨.string _, hentries⟩
  · rw [decode_encode, kind_of_decodeContent hread]
    exact hgives

end Block

theorem Blocks.restores_decode : Restores decode encode 4 := by
  refine restores_fields (opens_record (by decide)) rfl fun n f b hf h => ?_
  simp only [↓Decoder.bind_eq_some_iff] at h
  obtain ⟨outputs, houtputs, h⟩ := h
  cases h
  have houtputs := hf.required Block.restores_decode.list houtputs
  refine ⟨[("outputs", some (.array (outputs.map Block.encode)))], ?_, rfl, ?_, fun g hg => ?_⟩
  · simp only [encode, Slots.field_eq]
  · simp only [List.forall_mem_cons]
    exact ⟨houtputs.isJson, nofun⟩
  · simp only [houtputs.required hg 0 rfl]
    rfl

end Experiment.Report
