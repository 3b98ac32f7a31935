/-!
# Plain text

Blanks are the characters with the property White_Space. Lines, trimming and splitting work on
lists of characters.
-/

namespace Experiment.Text

/-- The property White_Space. -/
def isBlank (c : Char) : Bool :=
  let n := c.toNat
  (0x09 ≤ n && n ≤ 0x0D) || n = 0x20 || n = 0x85 || n = 0xA0 || n = 0x1680
    || (0x2000 ≤ n && n ≤ 0x200A) || n = 0x2028 || n = 0x2029 || n = 0x202F || n = 0x205F
    || n = 0x3000

def trimLeft (cs : List Char) : List Char :=
  cs.dropWhile isBlank

def dropRightWhile (p : Char → Bool) (cs : List Char) : List Char :=
  (cs.reverse.dropWhile p).reverse

def trimChars (cs : List Char) : List Char :=
  dropRightWhile isBlank (trimLeft cs)

def trim (s : String) : String :=
  String.ofList (trimChars s.toList)

def isBlankText (s : String) : Bool :=
  s.toList.all isBlank

def splitFirst? (mark : Char) : List Char → Option (List Char × List Char)
  | [] => none
  | c :: cs =>
    if c = mark then some ([], cs) else (splitFirst? mark cs).map fun p => (c :: p.1, p.2)

def splitOn (mark : Char) : List Char → List (List Char)
  | [] => [[]]
  | c :: cs =>
    if c = mark then [] :: splitOn mark cs
    else
      match splitOn mark cs with
      | [] => [[c]]
      | part :: parts => (c :: part) :: parts

def afterStart? : List Char → List Char → Option (List Char)
  | [], cs => some cs
  | _ :: _, [] => none
  | s :: ss, c :: cs => if s = c then afterStart? ss cs else none

def startsWith (start : List Char) (cs : List Char) : Bool :=
  (afterStart? start cs).isSome

def containsChars (part : List Char) : List Char → Bool
  | [] => part.isEmpty
  | c :: cs => startsWith part (c :: cs) || containsChars part cs

/-- Every occurrence of `part`, taken from the left, gives way to `value`; the inserted text is not
looked at again. The fuel is the length of the text. -/
def replaceFuel (part value : List Char) : Nat → List Char → List Char
  | _, [] => []
  | 0, cs => cs
  | fuel + 1, c :: cs =>
    match afterStart? part (c :: cs) with
    | some rest => value ++ replaceFuel part value fuel rest
    | none => c :: replaceFuel part value fuel cs

def replace (part value : String) (s : String) : String :=
  String.ofList (replaceFuel part.toList value.toList s.toList.length s.toList)

def joinWith (separator : String) (parts : List String) : String :=
  separator.intercalate parts

end Experiment.Text
