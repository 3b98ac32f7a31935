import Experiment.Digest
import Experiment.Journal
import Experiment.Process

/-!
# The world of a run

Everything that executing a run reads and changes: files, objects in memory, the environment, the
clock, the supply of uids, the programs of the machine and the journal. `Attempt ε α` is an action
on the world that may fail; what it has done before it fails stays done.

`on` is what comes of an action in a world. What an action leaves alone is said by a view of the
world that it keeps; it is `Quiet` if it keeps the journal.
-/

namespace Experiment

structure World extends Journal where
  files : FileTree := {}
  memory : OrderedMap ByteArray := []
  environment : OrderedMap String := []
  clock : Timestamp := ⟨0, 0⟩
  /-- What the uids of this world are made from, and how many have been given out. -/
  seed : String := ""
  issued : Nat := 0
  /-- The programs of the machine, and how many have been launched. -/
  programs : Programs := Process.plain
  launched : Nat := 0

abbrev Action (α : Type) := StateM World α

abbrev Attempt (ε α : Type) := ExceptT ε (StateM World) α

namespace Action
variable {α β : Type}

def on (x : Action α) (w : World) : α × World :=
  x.run w

@[simp] theorem on_pure (a : α) (w : World) : (pure a : Action α).on w = (a, w) := rfl

@[simp] theorem on_bind (x : Action α) (f : α → Action β) (w : World) :
    Action.on (x >>= f) w = (f (x.on w).1).on (x.on w).2 := rfl

@[simp] theorem on_get (w : World) : Action.on get w = (w, w) := rfl

@[simp] theorem on_set (w w' : World) : Action.on (set w') w = ((), w') := rfl

@[simp] theorem on_modify (f : World → World) (w : World) : Action.on (modify f) w = ((), f w) := rfl

end Action

namespace Attempt
variable {ε δ α β σ τ : Type}

def fail (e : ε) : Attempt ε α :=
  throw e

def ofExcept (x : Except ε α) : Attempt ε α :=
  ExceptT.mk (pure x)

def mapError (f : ε → δ) (x : Attempt ε α) : Attempt δ α :=
  ExceptT.mk do
    match ← x.run with
    | .ok a => return .ok a
    | .error e => return .error (f e)

def outcome (x : Attempt ε α) : Attempt δ (Except ε α) :=
  ExceptT.lift x.run

def on (x : Attempt ε α) (w : World) : Except ε α × World :=
  Action.on x.run w

@[simp] theorem on_run (x : Attempt ε α) (w : World) : Action.on x.run w = x.on w := rfl

@[simp] theorem on_pure (a : α) (w : World) : (pure a : Attempt ε α).on w = (.ok a, w) := rfl

@[simp] theorem on_throw (e : ε) (w : World) : (throw e : Attempt ε α).on w = (.error e, w) := rfl

@[simp] theorem on_lift (x : Action α) (w : World) :
    Attempt.on (liftM x : Attempt ε α) w = (.ok (x.on w).1, (x.on w).2) := rfl

@[simp] theorem on_get (w : World) : (get : Attempt ε World).on w = (.ok w, w) := rfl

@[simp] theorem on_set (w w' : World) : (set w' : Attempt ε PUnit).on w = (.ok ⟨⟩, w') := rfl

@[simp] theorem on_modify (f : World → World) (w : World) :
    (modify f : Attempt ε PUnit).on w = (.ok ⟨⟩, f w) := rfl

@[simp] theorem on_ofExcept (x : Except ε α) (w : World) : (ofExcept x).on w = (x, w) := rfl

@[simp] theorem on_outcome (x : Attempt ε α) (w : World) :
    (outcome x : Attempt δ (Except ε α)).on w = (.ok (x.on w).1, (x.on w).2) := rfl

@[simp] theorem on_mapError (f : ε → δ) (x : Attempt ε α) (w : World) :
    (mapError f x).on w = ((x.on w).1.mapError f, (x.on w).2) := by
  cases h : x.on w with
  | mk r w' =>
      change Action.on (x.run >>= _) w = _
      rw [Action.on_bind, on_run, h]
      cases r <;> rfl

theorem on_bind (x : Attempt ε α) (f : α → Attempt ε β) (w : World) :
    Attempt.on (x >>= f) w = match x.on w with
      | (.ok a, w') => (f a).on w'
      | (.error e, w') => (.error e, w') := by
  change Action.on (x.run >>= ExceptT.bindCont f) w = _
  rw [Action.on_bind, on_run]
  cases x.on w with
  | mk r w' => cases r <;> rfl

theorem on_bind_of_ok {x : Attempt ε α} {f : α → Attempt ε β} {w w' : World} {a : α}
    (h : x.on w = (.ok a, w')) : Attempt.on (x >>= f) w = (f a).on w' := by
  rw [on_bind, h]

theorem on_bind_of_error {x : Attempt ε α} {f : α → Attempt ε β} {w w' : World} {e : ε}
    (h : x.on w = (.error e, w')) : Attempt.on (x >>= f) w = (.error e, w') := by
  rw [on_bind, h]

@[simp] theorem on_lift_bind (x : Action α) (f : α → Attempt ε β) (w : World) :
    Attempt.on ((liftM x : Attempt ε α) >>= f) w = (f (x.on w).1).on (x.on w).2 := rfl

@[simp] theorem on_get_bind (f : World → Attempt ε β) (w : World) :
    Attempt.on ((get : Attempt ε World) >>= f) w = (f w).on w := rfl

theorem on_ok_inj {x : Attempt ε α} {a b : α} {w v v' : World} (h : x.on w = (.ok a, v))
    (h' : x.on w = (.ok b, v')) : a = b ∧ v = v' := by
  rw [h] at h'
  cases h'
  exact ⟨rfl, rfl⟩

theorem on_bind_eq_ok {x : Attempt ε α} {f : α → Attempt ε β} {w w' : World} {b : β} :
    Attempt.on (x >>= f) w = (.ok b, w') ↔
      ∃ a v, x.on w = (.ok a, v) ∧ (f a).on v = (.ok b, w') := by
  rw [on_bind]
  constructor
  · intro h
    cases hx : x.on w with
    | mk r v =>
        cases r with
        | ok a => exact ⟨a, v, rfl, by simpa [hx] using h⟩
        | error e => simp [hx] at h
  · rintro ⟨a, v, hx, hf⟩
    rw [hx]
    exact hf

theorem on_bind_eq_error {x : Attempt ε α} {f : α → Attempt ε β} {w w' : World} {e : ε} :
    Attempt.on (x >>= f) w = (.error e, w') ↔
      x.on w = (.error e, w') ∨ ∃ a v, x.on w = (.ok a, v) ∧ (f a).on v = (.error e, w') := by
  rw [on_bind]
  cases hx : x.on w with
  | mk r v =>
      cases r with
      | ok a =>
          constructor
          · exact fun h => .inr ⟨a, v, rfl, h⟩
          · rintro (h | ⟨a', v', h, hf⟩)
            · simp at h
            · cases h
              exact hf
      | error e' => simp

theorem on_mapError_eq_ok {f : ε → δ} {x : Attempt ε α} {w w' : World} {a : α} :
    (mapError f x).on w = (.ok a, w') ↔ x.on w = (.ok a, w') := by
  rw [on_mapError]
  cases x.on w with
  | mk r v =>
      cases r with
      | ok b =>
          change (Except.ok b, v) = (.ok a, w') ↔ _
          simp
      | error e =>
          change (Except.error (f e), v) = (.ok a, w') ↔ _
          simp

theorem on_mapError_eq_error {f : ε → δ} {x : Attempt ε α} {w w' : World} {d : δ} :
    (mapError f x).on w = (.error d, w') ↔ ∃ e, x.on w = (.error e, w') ∧ f e = d := by
  rw [on_mapError]
  cases x.on w with
  | mk r v =>
      cases r with
      | ok a =>
          change (Except.ok a, v) = (.error d, w') ↔ _
          simp
      | error e =>
          constructor
          · intro h
            cases h
            exact ⟨e, rfl, rfl⟩
          · rintro ⟨_, h, rfl⟩
            cases h
            rfl

/-- Whatever comes of an action, what is seen of the world stays the same. -/
def Keeps (view : World → σ) (x : Attempt ε α) : Prop :=
  ∀ w, view (x.on w).2 = view w

abbrev Quiet (x : Attempt ε α) : Prop :=
  x.Keeps World.toJournal

namespace Keeps
variable {view : World → σ}

theorem pure (a : α) : Keeps view (Pure.pure a : Attempt ε α) := fun _ => rfl

theorem throw (e : ε) : Keeps view (MonadExcept.throw e : Attempt ε α) := fun _ => rfl

theorem ofExcept (x : Except ε α) : (Attempt.ofExcept x).Keeps view := fun _ => rfl

theorem bind {x : Attempt ε α} {f : α → Attempt ε β} (hx : x.Keeps view)
    (hf : ∀ a, (f a).Keeps view) : Keeps view (x >>= f) := by
  intro w
  have hw := hx w
  rw [on_bind]
  cases h : x.on w with
  | mk r v =>
      rw [h] at hw
      cases r with
      | ok a => exact (hf a v).trans hw
      | error e => exact hw

theorem mapError {x : Attempt ε α} (f : ε → δ) (hx : x.Keeps view) : (x.mapError f).Keeps view := by
  intro w
  rw [on_mapError]
  exact hx w

theorem of_on {x : Attempt ε α} (hx : x.Keeps view) {w w' : World} {r : Except ε α}
    (h : x.on w = (r, w')) : view w' = view w := by
  rw [← hx w, h]

theorem map {x : Attempt ε α} (g : σ → τ) (hx : x.Keeps view) : x.Keeps (g ∘ view) :=
  fun w => congrArg g (hx w)

end Keeps

end Attempt

namespace World

def noting (w : World) (e : Entries) : World :=
  { w with toJournal := w.toJournal.add e }

@[simp] theorem toJournal_noting (w : World) (e : Entries) :
    (w.noting e).toJournal = w.toJournal.add e := rfl

@[simp] theorem environment_noting (w : World) (e : Entries) :
    (w.noting e).environment = w.environment := rfl

@[simp] theorem clock_noting (w : World) (e : Entries) : (w.noting e).clock = w.clock := rfl

theorem noting_noting (w : World) (a b : Entries) : (w.noting a).noting b = w.noting (a ++ b) := by
  simp only [noting, Journal.add_add]

def note (e : Entries) : Action Unit :=
  modify fun w => w.noting e

@[simp] theorem on_note (e : Entries) (w : World) : (note e).on w = ((), w.noting e) := rfl

def emit (e : Event) : Action Unit :=
  note { events := [e] }

@[simp] theorem on_emit (e : Event) (w : World) :
    (emit e).on w = ((), w.noting { events := [e] }) := rfl

def now : Action Timestamp := do
  return (← get).clock

@[simp] theorem on_now (w : World) : now.on w = (w.clock, w) := rfl

def record (c : DatabaseCall) : Action Unit :=
  note { ledger := [c] }

def handOver (task : Run) : Action Unit :=
  note { handed := [task] }

@[simp] theorem on_handOver (task : Run) (w : World) :
    (handOver task).on w = ((), w.noting { handed := [task] }) := rfl

/-- The uid of a number: 32 hexadecimal digits, marked as random ones of version 4. -/
def uidOf (seed : String) (n : Nat) : String :=
  let digits := (Digest.hex (seed ++ ":" ++ toString n).toUTF8).toList
  let variant := match digits[16]? with
    | some c => if c ≤ '3' then '8' else if c ≤ '7' then '9' else if c ≤ 'b' then 'a' else 'b'
    | none => '8'
  String.ofList (digits.take 12 ++ '4' :: (digits.drop 13).take 3
    ++ variant :: (digits.drop 17).take 15)

theorem uidOf_ne_empty (seed : String) (n : Nat) : uidOf seed n ≠ "" := by
  intro h
  have hl := congrArg String.toList h
  simp [uidOf] at hl

def freshUid : Action String := do
  let w ← get
  set { w with issued := w.issued + 1 }
  return uidOf w.seed w.issued

@[simp] theorem on_freshUid (w : World) :
    freshUid.on w = (uidOf w.seed w.issued, { w with issued := w.issued + 1 }) := rfl

def changeFiles (change : FileTree → Except OsError FileTree) : Attempt OsError Unit := do
  match change (← get).files with
  | .ok files => modify fun w => { w with files }
  | .error e => throw e

def writeFile (p : FilePath) (bytes : ByteArray) : Attempt OsError Unit :=
  changeFiles fun files => files.write p bytes

def createDirectories (p : FilePath) : Attempt OsError Unit := do
  let (files, refused) := (← get).files.createDirectories p
  modify fun w => { w with files }
  match refused with
  | some e => throw e
  | none => pure ()

def copyFile (source target : FilePath) : Attempt OsError Unit :=
  changeFiles fun files => files.copy source target

def readFile (p : FilePath) : Attempt OsError ByteArray := do
  match (← get).files.read p with
  | .ok b => return b
  | .error e => throw e

def isFile (p : FilePath) : Action Bool := do
  return (← get).files.isFile p

def apartFromFiles (w : World) : World :=
  { w with files := {} }

theorem eq_of_apartFromFiles {v w : World} (h : v.apartFromFiles = w.apartFromFiles) :
    v.toJournal = w.toJournal ∧ v.environment = w.environment ∧ v.clock = w.clock := by
  simp only [apartFromFiles, World.mk.injEq] at h
  exact ⟨h.1, h.2.2.2.1, h.2.2.2.2.1⟩

theorem keeps_changeFiles (change : FileTree → Except OsError FileTree) :
    (changeFiles change).Keeps apartFromFiles := by
  intro w
  unfold changeFiles
  rw [Attempt.on_get_bind]
  cases change w.files <;> rfl

theorem keeps_writeFile (p : FilePath) (bytes : ByteArray) :
    (writeFile p bytes).Keeps apartFromFiles :=
  keeps_changeFiles _

theorem keeps_createDirectories (p : FilePath) : (createDirectories p).Keeps apartFromFiles := by
  intro w
  unfold createDirectories
  rw [Attempt.on_get_bind]
  cases h : w.files.createDirectories p with
  | mk files refused => cases refused <;> rfl

end World

/-- A program inherits the environment, and is launched from its own directory. -/
def Process.launch (i : Launch) : Attempt OsError ProcessOutput := do
  let w ← get
  let (output, files) ← Attempt.ofExcept (w.programs w.launched w.files
    { i with environment := OrderedMap.extend w.environment i.environment })
  set { w with files := { files with current := w.files.current }, launched := w.launched + 1 }
  return output

end Experiment
