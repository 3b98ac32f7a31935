import Experiment.Error
import Experiment.Run.Basic

/-!
# Expanding hyperparameters

A grid has one column of values per hyperparameter. `expandGrid` takes every choice of one value
each, the first parameter varying slowest; `expandList` takes the lists position by position.

The size of a grid is a word of 64 bits, and a column takes no more bytes than half the words can
count. A grid whose size goes beyond that stops the program.
-/

namespace Experiment

structure Grid where
  columns : HyperParams
  size : Nat
deriving DecidableEq, Inhabited

/-- What is left to the compiler: whether a product that leaves its word stops the program or wraps
around, and how many bytes a value takes. -/
structure Build where
  checks : Bool := false
  valueSize : Nat := 72

namespace Grid

def isEmpty (g : Grid) : Bool :=
  g.size = 0

def isSweep (g : Grid) : Bool :=
  !g.columns.isEmpty

def names (g : Grid) : List String :=
  OrderedMap.keys g.columns

def column? (g : Grid) (name : String) : Option (List Json) :=
  OrderedMap.find? name g.columns

def point? (g : Grid) (i : Nat) : Option Parameters :=
  if i < g.size then some (OrderedMap.mapValues (fun values => values.getD i .null) g.columns)
  else none

def wordBound : Nat := 0x10000000000000000

/-- No allocation takes so many bytes. -/
def allocationBound : Nat := 0x8000000000000000

def times (b : Build) (m n : Nat) : Except Overflow Nat :=
  if m * n < wordBound then .ok (m * n)
  else if b.checks then .error .product
  else .ok (m * n % wordBound)

/-- The number of points, as the program comes to it. -/
def pointCount (b : Build) (hyperparams : HyperParams) : Except Overflow Nat :=
  hyperparams.foldlM (fun size p => times b size p.2.length) 1

/-- Each value stands `stride` times in a row, and the whole list is gone through again until the
column is full. -/
def columnOf (size stride : Nat) (values : List Json) : List Json :=
  (List.range size).map fun i => values.getD (i / stride % values.length) .null

/-- `above` is the stride of the column before. A stride is zero only where the size has wrapped
around. -/
def gridColumns (size : Nat) : Nat → HyperParams → Except Overflow HyperParams
  | _, [] => .ok []
  | above, (name, values) :: rest =>
    if values.isEmpty then do
      return (name, []) :: (← gridColumns size above rest)
    else if 0 < size ∧ above / values.length = 0 then .error .division
    else do
      let others ← gridColumns size (above / values.length) rest
      return (name, columnOf size (above / values.length) values) :: others

def expandGrid (b : Build) (hyperparams : HyperParams) : Except Overflow Grid :=
  if hyperparams.isEmpty then .ok ⟨[], 1⟩
  else do
    let size ← pointCount b hyperparams
    -- All columns have one size, so that it is the first one that cannot be allocated.
    if allocationBound ≤ size * b.valueSize then .error .capacity
    else return ⟨← gridColumns size size hyperparams, size⟩

def expandList (hyperparams : HyperParams) : Except RunError Grid :=
  match hyperparams with
  | [] => .ok ⟨[], 1⟩
  | (_, first) :: rest =>
    match rest.find? fun p => p.2.length ≠ first.length with
    | some (name, values) =>
      .error (.configuration (.unequalLists name values.length first.length))
    | none => .ok ⟨hyperparams, first.length⟩

def expand (hyperparams : HyperParams) : Strategy → Except RunError Grid
  | .grid => (expandGrid {} hyperparams).mapError .overflow
  | .list => expandList hyperparams

end Grid

end Experiment
