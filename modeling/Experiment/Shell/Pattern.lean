/-!
# Patterns of the shell

A star stands for any text, a question mark for any character and brackets for one of a set. A
character that was quoted stands for itself.
-/

namespace Experiment.Shell

/-- A character, and whether it was quoted. -/
abbrev Marked := Char × Bool

inductive Glob where
  | exactly (c : Char)
  | anyChar
  | anyText
  | oneOf (negated : Bool) (ranges : List (Char × Char))
deriving DecidableEq

namespace Glob

def ranges? : Nat → List Marked → Option (List (Char × Char) × List Marked)
  | 0, _ => none
  | _ + 1, [] => none
  | fuel + 1, (c, quoted) :: rest =>
    if c = ']' && !quoted then some ([], rest)
    else
      match rest with
      | ('-', false) :: (d, last) :: more =>
        if d = ']' && !last then (ranges? fuel rest).map fun p => ((c, c) :: p.1, p.2)
        else (ranges? fuel more).map fun p => ((c, d) :: p.1, p.2)
      | _ => (ranges? fuel rest).map fun p => ((c, c) :: p.1, p.2)

/-- A set after its opening bracket; a bracket right at its start is a member. -/
def set? (cs : List Marked) : Option (Glob × List Marked) :=
  let (negated, cs) := match cs with
    | ('!', false) :: rest => (true, rest)
    | ('^', false) :: rest => (true, rest)
    | cs => (false, cs)
  match cs with
  | (']', false) :: rest =>
    (ranges? (rest.length + 1) rest).map fun p => (.oneOf negated ((']', ']') :: p.1), p.2)
  | cs => (ranges? (cs.length + 1) cs).map fun p => (.oneOf negated p.1, p.2)

def ofMarkedFuel : Nat → List Marked → List Glob
  | 0, _ => []
  | _ + 1, [] => []
  | fuel + 1, (c, quoted) :: rest =>
    if quoted then .exactly c :: ofMarkedFuel fuel rest
    else if c = '*' then .anyText :: ofMarkedFuel fuel rest
    else if c = '?' then .anyChar :: ofMarkedFuel fuel rest
    else if c = '[' then
      match set? rest with
      | some (g, rest) => g :: ofMarkedFuel fuel rest
      | none => .exactly c :: ofMarkedFuel fuel rest
    else .exactly c :: ofMarkedFuel fuel rest

def ofMarked (cs : List Marked) : List Glob :=
  ofMarkedFuel (cs.length + 1) cs

def takes (g : Glob) (c : Char) : Bool :=
  match g with
  | .exactly d => c = d
  | .anyChar => true
  | .anyText => true
  | .oneOf negated ranges => (ranges.any fun r => r.1 ≤ c && c ≤ r.2) != negated

def fits : List Glob → List Char → Bool
  | [], cs => cs.isEmpty
  | .anyText :: gs, [] => fits gs []
  | .anyText :: gs, c :: cs => fits gs (c :: cs) || fits (.anyText :: gs) cs
  | _ :: _, [] => false
  | g :: gs, c :: cs => g.takes c && fits gs cs
termination_by gs cs => gs.length + cs.length

def isPattern (gs : List Glob) : Bool :=
  gs.any fun g => match g with
    | .exactly _ => false
    | _ => true

def dropStart (longest : Bool) (gs : List Glob) (cs : List Char) : List Char :=
  let lengths := List.range (cs.length + 1)
  match (if longest then lengths.reverse else lengths).find? fun n => fits gs (cs.take n) with
  | some n => cs.drop n
  | none => cs

def dropEnd (longest : Bool) (gs : List Glob) (cs : List Char) : List Char :=
  let lengths := List.range (cs.length + 1)
  match (if longest then lengths else lengths.reverse).find? fun n => fits gs (cs.drop n) with
  | some n => cs.take n
  | none => cs

end Glob

end Experiment.Shell
