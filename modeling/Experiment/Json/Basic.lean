import Experiment.OrderedMap

/-!
# JSON values

Objects keep the order of their fields. A number is an integer or a double; the double is held by
its bits, so that equality of values is decidable.
-/

namespace Experiment

inductive Number where
  | int (value : Int)
  | float (bits : UInt64)
deriving DecidableEq

namespace Number

def doubleBits : Number → UInt64
  | .int i =>
    if 0 ≤ i then i.toNat.toUInt64.toFloat.toBits else (-(i.natAbs.toUInt64.toFloat)).toBits
  | .float bits => bits

/-- The place of a number among all doubles; both zeros have the same. -/
def rank (n : Number) : Int :=
  let bits := n.doubleBits.toNat
  if bits < 0x8000000000000000 then bits else 0x8000000000000000 - bits

/-- The integers that are held exactly: those of 64 bits, signed or not. -/
def fits (i : Int) : Bool :=
  -0x8000000000000000 ≤ i && i < 0x10000000000000000

end Number

inductive Json where
  | null
  | bool (value : Bool)
  | number (value : Number)
  | string (value : String)
  | array (items : List Json)
  | object (fields : List (String × Json))
deriving Inhabited

namespace Json

mutual
def same : Json → Json → Bool
  | .null, .null => true
  | .bool a, .bool b => a = b
  | .number a, .number b => a = b
  | .string a, .string b => a = b
  | .array a, .array b => sameItems a b
  | .object a, .object b => sameFields a b
  | _, _ => false

def sameItems : List Json → List Json → Bool
  | [], [] => true
  | a :: as, b :: bs => same a b && sameItems as bs
  | _, _ => false

def sameFields : List (String × Json) → List (String × Json) → Bool
  | [], [] => true
  | (k, a) :: as, (l, b) :: bs => k = l && same a b && sameFields as bs
  | _, _ => false
end

mutual
theorem same_iff (a b : Json) : same a b = true ↔ a = b := by
  cases a <;> cases b <;> simp [same, sameItems_iff, sameFields_iff]

theorem sameItems_iff (a b : List Json) : sameItems a b = true ↔ a = b := by
  cases a <;> cases b <;> simp [sameItems]
  rename_i x xs y ys
  rw [same_iff x y, sameItems_iff xs ys]

theorem sameFields_iff (a b : List (String × Json)) : sameFields a b = true ↔ a = b := by
  cases a with
  | nil => cases b <;> simp [sameFields]
  | cons x xs =>
    cases b with
    | nil => simp [sameFields]
    | cons y ys =>
      obtain ⟨k, v⟩ := x
      obtain ⟨l, u⟩ := y
      simp [sameFields, same_iff v u, sameFields_iff xs ys]
end

instance : DecidableEq Json := fun a b =>
  decidable_of_iff (same a b = true) (same_iff a b)

def ofNat (n : Nat) : Json :=
  .number (.int n)

def asString? : Json → Option String
  | .string s => some s
  | _ => none

def asNumber? : Json → Option Number
  | .number n => some n
  | _ => none

/-- The value of a field; the first one if a name is repeated. -/
def get? (key : String) : Json → Option Json
  | .object fields => OrderedMap.find? key fields
  | _ => none

end Json

end Experiment
