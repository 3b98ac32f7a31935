import Experiment.Shell.Command

/-!
# The tokens of a script

A word is a list of fragments, for parts of it may be quoted and parts may stand for something else.
What lies within a substitution is cut into tokens in the same way, up to its closing bracket.
-/

namespace Experiment.Shell

inductive Fault where
  | openQuote
  | openExpansion
  | badSubstitution
  /-- What came in place of what. -/
  | unexpected (what : String) (expected : Option String)
deriving DecidableEq

def Fault.message : Fault → String
  | .openQuote => "Syntax error: Unterminated quoted string"
  | .openExpansion => "Syntax error: Missing '\x7d'"
  | .badSubstitution => "Bad substitution"
  | .unexpected what none => "Syntax error: " ++ what ++ " unexpected"
  | .unexpected what (some expected) =>
    "Syntax error: " ++ what ++ " unexpected (expecting \"" ++ expected ++ "\")"

def Fault.unfinished : Fault :=
  .unexpected "end of file" none

inductive Arrow where
  | read
  | write
  | append
  | duplicate
deriving DecidableEq

inductive Token where
  | word (fragments : Word)
  | newline
  | semicolon
  | doubleSemicolon
  | both
  | either
  | bar
  | opening
  | closing
  | arrow (descriptor : Option Nat) (arrow : Arrow)
  /-- Text that stands in the script as the input of a command. -/
  | here (content : Word)

namespace Token

def quote : Char := Char.ofNat 0x27

def backquote : Char := Char.ofNat 0x60

def endsWord (c : Char) : Bool :=
  c = ' ' || c = '\t' || c = '\n' || c = ';' || c = '&' || c = '|' || c = '(' || c = ')'
    || c = '<' || c = '>'

def startsName (c : Char) : Bool :=
  c.isAlpha || c = '_'

def continuesName (c : Char) : Bool :=
  c.isAlphanum || c = '_'

def isSpecial (c : Char) : Bool :=
  c.isDigit || c = '$' || c = '?' || c = '#' || c = '@' || c = '*' || c = '!' || c = '-'

/-- Where a word is read: by itself, between double quotes, in the lines of an input, or in the
braces of a variable. There single quotes count unless the braces lie between double quotes and hold
no pattern. -/
inductive Place where
  | bare
  | quoted
  | lines
  | braces (between singles : Bool)
deriving DecidableEq

namespace Place

def isQuoted : Place → Bool
  | .bare => false
  | .quoted => true
  | .lines => true
  | .braces between _ => between

def hasSingles : Place → Bool
  | .bare => true
  | .quoted => false
  | .lines => false
  | .braces _ singles => singles

def isBraces : Place → Bool
  | .braces _ _ => true
  | _ => false

def escapes (p : Place) (c : Char) : Bool :=
  !p.isQuoted || c = '$' || c = '\\' || c = backquote || (c = '"' && p ≠ .lines)
    || (c = '\x7d' && p.isBraces)

end Place

def splitUnescaped (mark : Char) : List Char → Option (List Char × List Char)
  | [] => none
  | c :: cs =>
    if c = mark then some ([], cs)
    else if c = '\\' then
      match cs with
      | [] => none
      | d :: cs => (splitUnescaped mark cs).map fun p => (c :: d :: p.1, p.2)
    else (splitUnescaped mark cs).map fun p => (c :: p.1, p.2)

/-- The text up to the bracket that closes it; quoted parts and inner brackets are passed over. -/
def enclosed : Nat → Nat → List Char → Option (List Char × List Char)
  | 0, _, _ => none
  | _ + 1, _, [] => none
  | fuel + 1, depth, c :: cs =>
    let go (depth : Nat) (read : List Char) (rest : List Char) :=
      (enclosed fuel depth rest).map fun p => (read ++ p.1, p.2)
    if c = ')' then
      match depth with
      | 0 => some ([], cs)
      | depth + 1 => go depth [c] cs
    else if c = '(' then go (depth + 1) [c] cs
    else if c = '\\' then go depth (c :: cs.take 1) (cs.drop 1)
    else if c = quote then
      match Text.splitFirst? quote cs with
      | some (inside, rest) => go depth (c :: inside ++ [quote]) rest
      | none => none
    else if c = '"' then
      match splitUnescaped '"' cs with
      | some (inside, rest) => go depth (c :: inside ++ ['"']) rest
      | none => none
    else go depth [c] cs

/-- The script between backquotes, in which backslashes protect some characters. -/
def unescapeScript : List Char → List Char
  | [] => []
  | [c] => [c]
  | c :: d :: rest =>
    if c = '\\' && (d = backquote || d = '$' || d = '\\') then d :: unescapeScript rest
    else c :: unescapeScript (d :: rest)

def substitution (quoted : Bool) (inside : List Char) : Fragment :=
  match inside, inside.getLast? with
  | '(' :: rest, some ')' => .arithmetic (String.ofList rest.dropLast) quoted
  | _, _ => .substitution (String.ofList inside) quoted

/-- What is done with the value, and whether a word follows that may hold a pattern. -/
def adjustment? (cs : List Char) : Option (Adjustment × Bool × List Char) :=
  match cs with
  | ':' :: '-' :: rest => some (.orElse true, false, rest)
  | ':' :: '=' :: rest => some (.orAssign true, false, rest)
  | ':' :: '+' :: rest => some (.instead true, false, rest)
  | '-' :: rest => some (.orElse false, false, rest)
  | '=' :: rest => some (.orAssign false, false, rest)
  | '+' :: rest => some (.instead false, false, rest)
  | '#' :: '#' :: rest => some (.withoutStart true, true, rest)
  | '#' :: rest => some (.withoutStart false, true, rest)
  | '%' :: '%' :: rest => some (.withoutEnd true, true, rest)
  | '%' :: rest => some (.withoutEnd false, true, rest)
  | _ => none

def variableName? (cs : List Char) : Option (String × List Char) :=
  match cs with
  | [] => none
  | c :: rest =>
    if startsName c then
      some (String.ofList (c :: rest.takeWhile continuesName), rest.dropWhile continuesName)
    else if isSpecial c then some (String.singleton c, rest)
    else none

/-- In braces a number may have several digits. -/
def bracedName? (cs : List Char) : Option (String × List Char) :=
  let name := cs.takeWhile continuesName
  if name.isEmpty then variableName? cs else some (String.ofList name, cs.dropWhile continuesName)

mutual

/-- A word up to the end of its place; the fragments read so far are kept in reverse. -/
def scanWord (fuel : Nat) (place : Place) (cs : List Char) (read : Word) :
    Except Fault (Word × List Char) :=
  match fuel with
  | 0 => .error .unfinished
  | fuel + 1 =>
    match cs with
    | [] =>
      match place with
      | .bare => .ok (read.reverse, [])
      | .lines => .ok (read.reverse, [])
      | .quoted => .error .openQuote
      | .braces _ _ => .error .openExpansion
    | c :: rest =>
      if place = .bare && endsWord c then .ok (read.reverse, cs)
      else if place = .quoted && c = '"' then .ok (read.reverse, rest)
      else if place.isBraces && c = '\x7d' then .ok (read.reverse, rest)
      else if c = quote && place.hasSingles then
        match Text.splitFirst? quote rest with
        | none => .error .openQuote
        | some (inside, rest) =>
          scanWord fuel place rest (.text (String.ofList inside) true :: read)
      else if c = '"' && place ≠ .lines then
        match scanWord fuel .quoted rest [] with
        | .error e => .error e
        | .ok (inside, rest) =>
          scanWord fuel place rest (inside.reverse ++ .text "" true :: read)
      else if c = '\\' then
        match rest with
        | [] => scanWord fuel place [] (.text "\\" true :: read)
        | '\n' :: rest => scanWord fuel place rest read
        | d :: rest =>
          if place.escapes d then
            scanWord fuel place rest (.text (String.singleton d) true :: read)
          else scanWord fuel place rest (.text (String.ofList ['\\', d]) true :: read)
      else if c = backquote then
        match splitUnescaped backquote rest with
        | none => .error .openExpansion
        | some (inside, rest) =>
          scanWord fuel place rest
            (.substitution (String.ofList (unescapeScript inside)) place.isQuoted :: read)
      else if c = '$' then
        match expansion fuel place.isQuoted rest with
        | .error e => .error e
        | .ok (f, rest) => scanWord fuel place rest (f :: read)
      else scanWord fuel place rest (.text (String.singleton c) place.isQuoted :: read)

def expansion (fuel : Nat) (quoted : Bool) (cs : List Char) :
    Except Fault (Fragment × List Char) :=
  match fuel with
  | 0 => .error .unfinished
  | fuel + 1 =>
    match cs with
    | '(' :: rest =>
      match enclosed (rest.length + 1) 0 rest with
      | some (inside, rest) => .ok (substitution quoted inside, rest)
      | none => .error .unfinished
    | '\x7b' :: '#' :: rest =>
      match variableName? rest with
      | some (name, '\x7d' :: rest) => .ok (.reference name .length [] quoted, rest)
      | _ => braced fuel quoted ('#' :: rest)
    | '\x7b' :: rest => braced fuel quoted rest
    | cs =>
      match variableName? cs with
      | some (name, rest) => .ok (.reference name .asIs [] quoted, rest)
      | none => .ok (.text "$" quoted, cs)

def braced (fuel : Nat) (quoted : Bool) (cs : List Char) : Except Fault (Fragment × List Char) :=
  match fuel with
  | 0 => .error .unfinished
  | fuel + 1 =>
    match bracedName? cs with
    | none => .error .badSubstitution
    | some (name, rest) =>
      match rest with
      | '\x7d' :: rest => .ok (.reference name .asIs [] quoted, rest)
      | rest =>
        match adjustment? rest with
        | none => .error (if rest.isEmpty then .openExpansion else .badSubstitution)
        | some (adjustment, pattern, rest) =>
          match scanWord fuel (.braces quoted (pattern || !quoted)) rest [] with
          | .error e => .error e
          | .ok (inner, rest) => .ok (.reference name adjustment inner quoted, rest)

end

def arrow? (cs : List Char) : Option (Token × List Char) :=
  let digits := cs.takeWhile Char.isDigit
  let descriptor := if digits.isEmpty then none else (String.ofList digits).toNat?
  match cs.drop digits.length with
  | '>' :: '&' :: rest => some (.arrow descriptor .duplicate, rest)
  | '>' :: '>' :: rest => some (.arrow descriptor .append, rest)
  | '>' :: '|' :: rest => some (.arrow descriptor .write, rest)
  | '>' :: rest => some (.arrow descriptor .write, rest)
  | '<' :: rest => some (.arrow descriptor .read, rest)
  | _ => none

def operator? : List Char → Option (Token × List Char)
  | '\n' :: rest => some (.newline, rest)
  | ';' :: ';' :: rest => some (.doubleSemicolon, rest)
  | ';' :: rest => some (.semicolon, rest)
  | '&' :: '&' :: rest => some (.both, rest)
  | '&' :: rest => some (.semicolon, rest)
  | '|' :: '|' :: rest => some (.either, rest)
  | '|' :: rest => some (.bar, rest)
  | '(' :: rest => some (.opening, rest)
  | ')' :: rest => some (.closing, rest)
  | cs => arrow? cs

def linesTo (mark : List Char) (tabs : Bool) :
    List (List Char) → List (List Char) × List (List Char)
  | [] => ([], [])
  | l :: rest =>
    let l := if tabs then l.dropWhile (· = '\t') else l
    if l = mark then ([], rest) else ((l :: (linesTo mark tabs rest).1), (linesTo mark tabs rest).2)

def joinLines (ls : List (List Char)) : List Char :=
  ls.flatMap fun l => l ++ ['\n']

def plainFragment : Fragment → Option (String × Bool)
  | .text v quoted => some (v, quoted)
  | _ => none

/-- The lines that follow the line of an arrow as the input of its command. Quotes around the word
that ends them keep them as they are. -/
def scanHere (cs : List Char) : Except Fault (Token × List Char) :=
  let (tabs, cs) := match cs with
    | '-' :: rest => (true, rest)
    | cs => (false, cs)
  match scanWord (3 * cs.length + 6) .bare (cs.dropWhile (· = ' ')) [] with
  | .error e => .error e
  | .ok (w, rest) =>
    let parts := w.filterMap plainFragment
    let mark := (String.join (parts.map Prod.fst)).toList
    let line := rest.takeWhile (· ≠ '\n')
    let following := Text.splitOn '\n' (rest.drop (line.length + 1))
    let (content, after) := linesTo mark tabs following
    let text := joinLines content
    let rest := line ++ '\n' :: (['\n'].intercalate after)
    if parts.any Prod.snd then .ok (.here [.text (String.ofList text) true], rest)
    else
      match scanWord (3 * text.length + 6) .lines text [] with
      | .error e => .error e
      | .ok (w, _) => .ok (.here w, rest)

def scanFuel : Nat → List Char → Except Fault (List Token)
  | 0, _ => .ok []
  | _ + 1, [] => .ok []
  | fuel + 1, c :: cs =>
    if c = ' ' || c = '\t' then scanFuel fuel cs
    else if c = '#' then scanFuel fuel (cs.dropWhile (· ≠ '\n'))
    else if c = '\\' && cs.head? = some '\n' then scanFuel fuel (cs.drop 1)
    else if c = '<' && cs.head? = some '<' then
      match scanHere (cs.drop 1) with
      | .error e => .error e
      | .ok (t, rest) => (scanFuel fuel rest).map (t :: ·)
    else
      match operator? (c :: cs) with
      | some (t, rest) => (scanFuel fuel rest).map (t :: ·)
      | none =>
        match scanWord (3 * cs.length + 6) .bare (c :: cs) [] with
        | .error e => .error e
        | .ok (w, rest) => (scanFuel fuel rest).map (.word w :: ·)

def scan (script : String) : Except Fault (List Token) :=
  scanFuel (script.length + 1) script.toList

end Token

end Experiment.Shell
