import Experiment.Event
import Experiment.Secrets

/-!
# Journals

A journal keeps what a listener was told, which tasks were handed to a runtime and which calls a run
database accepted, each in order. It only grows: `Entries` are what one action adds, and adding twice
is adding the entries one after the other. Nobody is told anything where nobody listens.
-/

namespace Experiment

inductive DatabaseCall where
  | connect (secrets : Secrets)
  | run (uid project : String) (commit : Bool) (value : Run)
  | artifact (key tag project : String) (value : ArtifactSummary)
deriving DecidableEq

structure Entries where
  events : List Event := []
  handed : List Run := []
  ledger : List DatabaseCall := []
deriving DecidableEq

instance : Append Entries where
  append a b := ⟨a.events ++ b.events, a.handed ++ b.handed, a.ledger ++ b.ledger⟩

namespace Entries

@[simp] theorem append_mk (es es' : List Event) (ts ts' : List Run) (cs cs' : List DatabaseCall) :
    (⟨es, ts, cs⟩ ++ ⟨es', ts', cs'⟩ : Entries) = ⟨es ++ es', ts ++ ts', cs ++ cs'⟩ := rfl

@[simp] theorem events_append (a b : Entries) : (a ++ b).events = a.events ++ b.events := rfl

@[simp] theorem handed_append (a b : Entries) : (a ++ b).handed = a.handed ++ b.handed := rfl

@[simp] theorem ledger_append (a b : Entries) : (a ++ b).ledger = a.ledger ++ b.ledger := rfl

theorem append_assoc (a b c : Entries) : a ++ b ++ c = a ++ (b ++ c) := by
  cases a
  cases b
  cases c
  simp

end Entries

structure Journal extends Entries where
  listening : Bool := true
deriving DecidableEq

namespace Journal

def add (j : Journal) (e : Entries) : Journal where
  events := if j.listening then j.events ++ e.events else j.events
  handed := j.handed ++ e.handed
  ledger := j.ledger ++ e.ledger
  listening := j.listening

@[simp] theorem handed_add (j : Journal) (e : Entries) :
    (j.add e).handed = j.handed ++ e.handed := rfl

@[simp] theorem ledger_add (j : Journal) (e : Entries) :
    (j.add e).ledger = j.ledger ++ e.ledger := rfl

theorem events_add {j : Journal} (h : j.listening = true) (e : Entries) :
    (j.add e).events = j.events ++ e.events :=
  if_pos h

@[simp] theorem add_nothing (j : Journal) : j.add {} = j := by
  cases j
  simp [add]

theorem add_add (j : Journal) (a b : Entries) : (j.add a).add b = j.add (a ++ b) := by
  cases a
  cases b
  cases h : j.listening <;> simp [add, h]

end Journal

end Experiment
