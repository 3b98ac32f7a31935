import Experiment.Event
import Experiment.Proofs.Codec.Run

/-!
# Events are restored

The kind of an event says which fields its payload has. An event is always written with its kind
before its payload.
-/

namespace Experiment.Event
open Decoder

def Kind.name : Kind → String
  | .runStarted => "runStarted"
  | .logLine => "logLine"
  | .runFinished => "runFinished"
  | .sweepStarted => "sweepStarted"
  | .iterationFinished => "iterationFinished"
  | .sweepFinished => "sweepFinished"

def kind : Event → Kind
  | .runStarted .. => .runStarted
  | .logLine .. => .logLine
  | .runFinished .. => .runFinished
  | .sweepStarted .. => .sweepStarted
  | .iterationFinished .. => .iterationFinished
  | .sweepFinished .. => .sweepFinished

def slots : Event → Slots
  | .runStarted uid name iteration =>
    [("uid", some (.string uid)), ("name", some (.string name)),
      ("iteration", some (Json.ofNat iteration))]
  | .logLine uid content => [("uid", some (.string uid)), ("content", some (.string content))]
  | .runFinished uid iteration state =>
    [("uid", some (.string uid)), ("iteration", some (Json.ofNat iteration)),
      ("state", some (Json.orNull RunState.encode state))]
  | .sweepStarted uid tasks =>
    [("uid", some (.string uid)), ("tasks", some (Json.ofNat tasks))]
  | .iterationFinished uid iteration state =>
    [("uid", some (.string uid)), ("iteration", some (Json.ofNat iteration)),
      ("state", some (Json.orNull RunState.encode state))]
  | .sweepFinished uid state best =>
    [("uid", some (.string uid)), ("state", some (Json.orNull RunState.encode state)),
      ("best_iteration", some (Json.orNull Json.ofNat best))]

def payload (e : Event) : Json :=
  .object e.slots.fields

theorem encode_eq_fields (e : Event) : e.encode =
    .object (Slots.fields [("type", some (.string e.kind.name)), ("payload", some e.payload)]) := by
  cases e <;> rfl

theorem decodeKind_name (r : Reading) (k : Kind) : decodeKind r (.string k.name) = some k := by
  cases k <;> rfl

section Payloads
variable {n : Nat} {f : Fields} {name : String}

theorem shows_state {state : Option RunState} (hf : f.FromJson (n + 0))
    (h : f.maybe name RunState.decode = some state) :
    Shows (optional RunState.decode) ⟨.json, n + 0⟩ (some none)
      (some (Json.orNull RunState.encode state)) state :=
  hf.always (RunState.restores_decode.optional nofun).orNull h ⟨.null, .null, rfl⟩

theorem shows_iteration {iteration : Nat} (hf : f.FromJson (n + 0))
    (h : f.required name iterationNumber = some iteration) :
    Shows iterationNumber ⟨.json, n + 0⟩ none (some (Json.ofNat iteration)) iteration :=
  hf.required (restores_natBelow (by decide)) h

theorem restores_runStarted : Restores (decodePayload .runStarted) payload 1 := by
  refine restores_fields (opens_named (by decide)) rfl fun n f e hf h => ?_
  simp only [↓Decoder.bind_eq_some_iff] at h
  obtain ⟨uid, huid, name, hname, iteration, hiteration, h⟩ := h
  cases h
  have huid := hf.required restores_text huid
  have hname := hf.required restores_text hname
  have hiteration := shows_iteration hf hiteration
  refine ⟨_, rfl, rfl, ?_, fun g hg => ?_⟩
  · simp only [slots, List.forall_mem_cons]
    exact ⟨huid.isJson, hname.isJson, hiteration.isJson, nofun⟩
  · simp only [huid.required hg 0 rfl, hname.required hg 1 rfl, hiteration.required hg 2 rfl]
    rfl

theorem restores_logLine : Restores (decodePayload .logLine) payload 1 := by
  refine restores_fields (opens_named (by decide)) rfl fun n f e hf h => ?_
  simp only [↓Decoder.bind_eq_some_iff] at h
  obtain ⟨uid, huid, content, hcontent, h⟩ := h
  cases h
  have huid := hf.required restores_text huid
  have hcontent := hf.required restores_text hcontent
  refine ⟨_, rfl, rfl, ?_, fun g hg => ?_⟩
  · simp only [slots, List.forall_mem_cons]
    exact ⟨huid.isJson, hcontent.isJson, nofun⟩
  · simp only [huid.required hg 0 rfl, hcontent.required hg 1 rfl]
    rfl

theorem restores_finished {make : String → Nat → Option RunState → Event}
    (hm : ∀ uid iteration state, (make uid iteration state).payload =
      .object (Slots.fields [("uid", some (.string uid)), ("iteration", some (Json.ofNat iteration)),
        ("state", some (Json.orNull RunState.encode state))])) :
    Restores (fun r d => do
      let f ← named ["uid", "iteration", "state"] r d
      return make (← f.required "uid" text) (← f.required "iteration" iterationNumber)
        (← f.maybe "state" RunState.decode)) payload 1 := by
  refine restores_fields (opens_named (by decide)) rfl fun n f e hf h => ?_
  simp only [↓Decoder.bind_eq_some_iff] at h
  obtain ⟨uid, huid, iteration, hiteration, state, hstate, h⟩ := h
  cases h
  have huid := hf.required restores_text huid
  have hiteration := shows_iteration hf hiteration
  have hstate := shows_state hf hstate
  refine ⟨_, hm uid iteration state, rfl, ?_, fun g hg => ?_⟩
  · simp only [List.forall_mem_cons]
    exact ⟨huid.isJson, hiteration.isJson, hstate.isJson, nofun⟩
  · simp only [Fields.maybe, huid.required hg 0 rfl, hiteration.required hg 1 rfl,
      hstate.orElse hg 2 rfl]
    rfl

theorem restores_sweepStarted : Restores (decodePayload .sweepStarted) payload 1 := by
  refine restores_fields (opens_named (by decide)) rfl fun n f e hf h => ?_
  simp only [↓Decoder.bind_eq_some_iff] at h
  obtain ⟨uid, huid, tasks, htasks, h⟩ := h
  cases h
  have huid := hf.required restores_text huid
  have htasks := hf.required (restores_natBelow (by decide)) htasks
  refine ⟨_, rfl, rfl, ?_, fun g hg => ?_⟩
  · simp only [slots, List.forall_mem_cons]
    exact ⟨huid.isJson, htasks.isJson, nofun⟩
  · simp only [huid.required hg 0 rfl, htasks.required hg 1 rfl]
    rfl

theorem restores_sweepFinished : Restores (decodePayload .sweepFinished) payload 1 := by
  refine restores_fields (opens_named (by decide)) rfl fun n f e hf h => ?_
  simp only [↓Decoder.bind_eq_some_iff] at h
  obtain ⟨uid, huid, state, hstate, best, hbest, h⟩ := h
  cases h
  have huid := hf.required restores_text huid
  have hstate := shows_state hf hstate
  have hbest := hf.always ((restores_natBelow (by decide)).optional nofun).orNull hbest
    ⟨.null, .null, rfl⟩
  refine ⟨_, rfl, rfl, ?_, fun g hg => ?_⟩
  · simp only [slots, List.forall_mem_cons]
    exact ⟨huid.isJson, hstate.isJson, hbest.isJson, nofun⟩
  · simp only [Fields.maybe, iterationNumber, huid.required hg 0 rfl, hstate.orElse hg 1 rfl,
      hbest.orElse hg 2 rfl]
    rfl

theorem restores_payload (k : Kind) : Restores (decodePayload k) payload 1 := by
  cases k with
  | runStarted => exact restores_runStarted
  | logLine => exact restores_logLine
  | runFinished => exact restores_finished fun _ _ _ => rfl
  | sweepStarted => exact restores_sweepStarted
  | iterationFinished => exact restores_finished fun _ _ _ => rfl
  | sweepFinished => exact restores_sweepFinished

theorem kind_of_decodePayload {k : Kind} {r : Reading} {doc : Document} {e : Event}
    (h : decodePayload k r doc = some e) : e.kind = k := by
  cases k
  case logLine | sweepStarted =>
    simp only [decodePayload, ↓Decoder.bind_eq_some_iff] at h
    obtain ⟨_, -, _, -, _, -, h⟩ := h
    cases h
    rfl
  all_goals
    simp only [decodePayload, ↓Decoder.bind_eq_some_iff] at h
    obtain ⟨_, -, _, -, _, -, _, -, h⟩ := h
    cases h
    rfl

end Payloads

theorem restores_decode : Restores decode encode 2 := by
  intro n doc e hdoc h
  obtain ⟨f, hf, h⟩ := Option.bind_eq_some_iff.1 h
  obtain ⟨type, -, h⟩ := Option.bind_eq_some_iff.1 h
  obtain ⟨doc', hpayload, h⟩ := Option.bind_eq_some_iff.1 h
  obtain ⟨k, -, h⟩ := Option.bind_eq_some_iff.1 h
  have hf := fromJson_of_record hdoc hf
  have hread : decodePayload k ⟨.json, n + 1⟩ doc' = some e := by
    rw [hf.reading] at h
    split at h
    next =>
      obtain ⟨_, -, h⟩ := Option.bind_eq_some_iff.1 h
      exact h
    next => exact h
  have hgives := restores_payload k n doc' e (hf.isJson _ (OrderedMap.mem_of_find? hpayload)) hread
  rw [encode_eq_fields]
  refine ⟨isJson_fields ?_, ?_⟩
  · simp only [List.forall_mem_cons]
    exact ⟨by rintro _ ⟨⟩; exact .string _, by rintro _ ⟨⟩; exact hgives.1, nofun⟩
  · change (decodeKind _ (.string e.kind.name)).bind
      (fun kind => decodePayload kind ⟨.json, n + 1⟩ (Document.ofJson e.payload)) = some e
    rw [decodeKind_name, Option.bind_some, kind_of_decodePayload hread]
    exact hgives.2

end Experiment.Event
