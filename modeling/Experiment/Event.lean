import Experiment.Run.Codec

/-!
# Progress events

What a front end is told while runs execute. In JSON an event is an object with the fields `type`
and `payload`.
-/

namespace Experiment

inductive Event where
  | runStarted (uid name : String) (iteration : Nat)
  | logLine (uid content : String)
  | runFinished (uid : String) (iteration : Nat) (state : Option RunState)
  | sweepStarted (uid : String) (tasks : Nat)
  | iterationFinished (uid : String) (iteration : Nat) (state : Option RunState)
  | sweepFinished (uid : String) (state : Option RunState) (bestIteration : Option Nat)
deriving DecidableEq, Inhabited

namespace Event

inductive Kind where
  | runStarted
  | logLine
  | runFinished
  | sweepStarted
  | iterationFinished
  | sweepFinished

def wrap (type : String) (payload : List (String × Json)) : Json :=
  .object [("type", .string type), ("payload", .object payload)]

def encodeState (s : Option RunState) : Json :=
  Json.orNull RunState.encode s

def encode : Event → Json
  | .runStarted uid name iteration =>
    wrap "runStarted" [("uid", .string uid), ("name", .string name),
      ("iteration", Json.ofNat iteration)]
  | .logLine uid content =>
    wrap "logLine" [("uid", .string uid), ("content", .string content)]
  | .runFinished uid iteration state =>
    wrap "runFinished" [("uid", .string uid), ("iteration", Json.ofNat iteration),
      ("state", encodeState state)]
  | .sweepStarted uid tasks =>
    wrap "sweepStarted" [("uid", .string uid), ("tasks", Json.ofNat tasks)]
  | .iterationFinished uid iteration state =>
    wrap "iterationFinished" [("uid", .string uid), ("iteration", Json.ofNat iteration),
      ("state", encodeState state)]
  | .sweepFinished uid state best =>
    wrap "sweepFinished" [("uid", .string uid), ("state", encodeState state),
      ("best_iteration", Json.orNull Json.ofNat best)]

def decodeKind : Decoder Kind :=
  Decoder.name [("runStarted", .runStarted), ("logLine", .logLine),
    ("runFinished", .runFinished), ("sweepStarted", .sweepStarted),
    ("iterationFinished", .iterationFinished), ("sweepFinished", .sweepFinished)]

def iterationNumber : Decoder Nat :=
  Decoder.natBelow iterationBound

/-- A payload is an object; its state and best iteration may be left out. -/
def decodePayload (kind : Kind) : Decoder Event := fun r d =>
  match kind with
  | .runStarted => do
    let f ← Decoder.named ["uid", "name", "iteration"] r d
    return .runStarted (← f.required "uid" Decoder.text) (← f.required "name" Decoder.text)
      (← f.required "iteration" iterationNumber)
  | .logLine => do
    let f ← Decoder.named ["uid", "content"] r d
    return .logLine (← f.required "uid" Decoder.text) (← f.required "content" Decoder.text)
  | .runFinished => do
    let f ← Decoder.named ["uid", "iteration", "state"] r d
    return .runFinished (← f.required "uid" Decoder.text) (← f.required "iteration" iterationNumber)
      (← f.maybe "state" RunState.decode)
  | .sweepStarted => do
    let f ← Decoder.named ["uid", "tasks"] r d
    return .sweepStarted (← f.required "uid" Decoder.text)
      (← f.required "tasks" (Decoder.natBelow countBound))
  | .iterationFinished => do
    let f ← Decoder.named ["uid", "iteration", "state"] r d
    return .iterationFinished (← f.required "uid" Decoder.text)
      (← f.required "iteration" iterationNumber) (← f.maybe "state" RunState.decode)
  | .sweepFinished => do
    let f ← Decoder.named ["uid", "state", "best_iteration"] r d
    return .sweepFinished (← f.required "uid" Decoder.text) (← f.maybe "state" RunState.decode)
      (← f.maybe "best_iteration" iterationNumber)

/-- Both fields, in either order. A payload that comes first has to be readable as a whole. -/
def decode : Decoder Event := fun r d => do
  let f ← Decoder.record ["type", "payload"] r d
  let type ← OrderedMap.find? "type" f.entries
  let payload ← OrderedMap.find? "payload" f.entries
  let kind ← decodeKind f.reading type
  if f.entries.map Prod.fst = ["payload", "type"] then
    discard (payload.toJson? f.reading.levels)
  decodePayload kind f.reading payload

end Event

end Experiment
