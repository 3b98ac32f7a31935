import Experiment.Shell.Token

/-!
# Reading a script

Recursive descent over tokens. Reserved words are words without quotes at the start of a command.
-/

namespace Experiment.Shell

def isClosing (keyword : String) : Bool :=
  keyword ∈ ["then", "elif", "else", "fi", "do", "done", "esac", "\x7d"]

def isReserved (keyword : String) : Bool :=
  isClosing keyword || keyword ∈ ["if", "for", "while", "until", "case", "in", "\x7b", "!"]

structure Cursor where
  tokens : List Token
  line : Nat := 1

namespace Cursor

def breaksIn (w : Word) : Nat :=
  w.foldl (fun n f => match f with
    | .text v _ => n + v.toList.count '\n'
    | _ => n) 0

def next (c : Cursor) : Cursor :=
  match c.tokens with
  | .newline :: rest => ⟨rest, c.line + 1⟩
  | .word w :: rest => ⟨rest, c.line + breaksIn w⟩
  | .here w :: rest => ⟨rest, c.line + breaksIn w + 1⟩
  | _ :: rest => ⟨rest, c.line⟩
  | [] => c

def skipNewlinesFuel : Nat → Cursor → Cursor
  | 0, c => c
  | fuel + 1, c =>
    match c.tokens with
    | .newline :: _ => skipNewlinesFuel fuel c.next
    | _ => c

def skipNewlines (c : Cursor) : Cursor :=
  skipNewlinesFuel c.tokens.length c

def plainText? : Word → Option String
  | [] => some ""
  | .text s false :: rest => (plainText? rest).map (s ++ ·)
  | _ => none

def keyword? (c : Cursor) : Option String :=
  match c.tokens with
  | .word w :: _ => plainText? w
  | _ => none

def isAt (c : Cursor) (keyword : String) : Bool :=
  c.keyword? = some keyword

def nextName (c : Cursor) : String :=
  match c.tokens with
  | [] => "end of file"
  | .word w :: _ =>
    match plainText? w with
    | some s => if isReserved s then "\"" ++ s ++ "\"" else "word"
    | none => "word"
  | .newline :: _ => "newline"
  | .semicolon :: _ => "\";\""
  | .doubleSemicolon :: _ => "\";;\""
  | .both :: _ => "\"&&\""
  | .either :: _ => "\"||\""
  | .bar :: _ => "\"|\""
  | .opening :: _ => "\"(\""
  | .closing :: _ => "\")\""
  | .arrow _ _ :: _ => "redirection"
  | .here _ :: _ => "redirection"

def fault (c : Cursor) : Fault :=
  .unexpected c.nextName none

def faultFor (c : Cursor) (expected : String) : Fault :=
  .unexpected c.nextName (some expected)

def expect (c : Cursor) (keyword : String) : Except Fault Cursor :=
  if c.isAt keyword then .ok c.next else .error (c.faultFor keyword)

end Cursor

def assignment? (w : Word) : Option (String × Word) :=
  let rec go : Word → List Char → Option (String × Word)
    | .text s false :: rest, name =>
      if s = "=" && !name.isEmpty then some (String.ofList name.reverse, rest)
      else
        match s.toList with
        | [c] =>
          if Token.startsName c || (!name.isEmpty && Token.continuesName c) then
            go rest (c :: name)
          else none
        | _ => none
    | _, _ => none
  go w []

def descriptorOf (w : Word) : Option Nat :=
  (Cursor.plainText? w).bind String.toNat?

def redirection? (descriptor : Option Nat) (arrow : Arrow) (w : Word) : Option Redirection :=
  match arrow with
  | .read => some (.read w)
  | .write => some (.write (descriptor.getD 1) w)
  | .append => some (.append (descriptor.getD 1) w)
  | .duplicate => (descriptorOf w).map (.duplicate (descriptor.getD 1))

/-- A simple command up to the first token that cannot belong to it; its parts are kept in
reverse. -/
def readSimple : Nat → Cursor → SimpleCommand → Except Fault (SimpleCommand × Cursor)
  | 0, c, _ => .error c.fault
  | fuel + 1, c, s =>
    match c.tokens with
    | .word w :: _ =>
      match if s.words.isEmpty then assignment? w else none with
      | some a => readSimple fuel c.next { s with assignments := a :: s.assignments }
      | none => readSimple fuel c.next { s with words := w :: s.words }
    | .arrow d a :: .word w :: _ =>
      match redirection? d a w with
      | some r => readSimple fuel c.next.next { s with redirections := r :: s.redirections }
      | none => .error c.next.fault
    | .here w :: _ => readSimple fuel c.next { s with redirections := .here w :: s.redirections }
    | .arrow _ _ :: _ => .error c.next.fault
    | _ =>
      .ok ({ s with
        assignments := s.assignments.reverse
        words := s.words.reverse
        redirections := s.redirections.reverse }, c)

def readPatterns : Nat → Cursor → Except Fault (List Word × Cursor)
  | 0, c => .error c.fault
  | fuel + 1, c =>
    match c.tokens with
    | .word w :: .closing :: _ => .ok ([w], c.next.next)
    | .word w :: .bar :: _ => (readPatterns fuel c.next.next).map fun p => (w :: p.1, p.2)
    | .word _ :: _ => .error c.next.fault
    | _ => .error c.fault

def readWords : Nat → Cursor → List Word × Cursor
  | 0, c => ([], c)
  | fuel + 1, c =>
    match c.tokens with
    | .word w :: _ =>
      let (ws, c) := readWords fuel c.next
      (w :: ws, c)
    | .semicolon :: _ => ([], c.next)
    | _ => ([], c)

/-- The name and the words of a loop over words; without words it goes over the arguments. -/
def readHeader (c : Cursor) : Except Fault (String × List Word × Cursor) :=
  match c.keyword? with
  | none => .error c.fault
  | some name =>
    let c := c.next
    if c.skipNewlines.isAt "in" then
      let start := c.skipNewlines.next
      let (words, c) := readWords (start.tokens.length + 1) start
      .ok (name, words, c)
    else
      let c := match c.tokens with
        | .semicolon :: _ => c.next
        | _ => c
      .ok (name, [[.reference "@" .asIs [] true]], c)

def readRedirections : Nat → Cursor → Except Fault (List Redirection × Cursor)
  | 0, c => .error c.fault
  | fuel + 1, c =>
    match c.tokens with
    | .arrow d a :: .word w :: _ =>
      match redirection? d a w with
      | some r => (readRedirections fuel c.next.next).map fun p => (r :: p.1, p.2)
      | none => .error c.next.fault
    | .here w :: _ => (readRedirections fuel c.next).map fun p => (.here w :: p.1, p.2)
    | .arrow _ _ :: _ => .error c.next.fault
    | _ => .ok ([], c)

def withRedirections (command : Command) (c : Cursor) : Except Fault (Command × Cursor) :=
  (readRedirections (c.tokens.length + 1) c).map fun p =>
    (if p.1.isEmpty then command else .redirected c.line command p.1, p.2)

mutual

def readList (fuel : Nat) (c : Cursor) : Except Fault (Command × Cursor) :=
  match fuel with
  | 0 => .error c.fault
  | fuel + 1 =>
    let c := c.skipNewlines
    match c.tokens with
    | [] => .ok (.nothing, c)
    | .doubleSemicolon :: _ => .ok (.nothing, c)
    | .closing :: _ => .ok (.nothing, c)
    | _ =>
      if (c.keyword?.map isClosing).getD false then .ok (.nothing, c)
      else do
        let (first, c) ← readChain fuel c
        match c.tokens with
        | .semicolon :: _ =>
          let (rest, c) ← readList fuel c.next
          return (.sequence first rest, c)
        | .newline :: _ =>
          let (rest, c) ← readList fuel c.next
          return (.sequence first rest, c)
        | _ => return (first, c)

/-- Pipelines joined by `&&` and `||`, which bind equally and to the left. -/
def readChain (fuel : Nat) (c : Cursor) : Except Fault (Command × Cursor) :=
  match fuel with
  | 0 => .error c.fault
  | fuel + 1 => do
    let (first, c) ← readPipeline fuel c
    readLinks fuel first c

def readLinks (fuel : Nat) (first : Command) (c : Cursor) : Except Fault (Command × Cursor) :=
  match fuel with
  | 0 => .error c.fault
  | fuel + 1 =>
    match c.tokens with
    | .both :: _ => do
      let (second, c) ← readPipeline fuel c.next.skipNewlines
      readLinks fuel (.andThen first second) c
    | .either :: _ => do
      let (second, c) ← readPipeline fuel c.next.skipNewlines
      readLinks fuel (.orElse first second) c
    | _ => .ok (first, c)

def readPipeline (fuel : Nat) (c : Cursor) : Except Fault (Command × Cursor) :=
  match fuel with
  | 0 => .error c.fault
  | fuel + 1 =>
    if c.isAt "!" then do
      let (command, c) ← readPipeline fuel c.next
      return (.negation command, c)
    else do
      let (first, c) ← readCommand fuel c
      readPipes fuel first c

def readPipes (fuel : Nat) (first : Command) (c : Cursor) : Except Fault (Command × Cursor) :=
  match fuel with
  | 0 => .error c.fault
  | fuel + 1 =>
    match c.tokens with
    | .bar :: _ => do
      let (second, c) ← readCommand fuel c.next.skipNewlines
      readPipes fuel (.pipe first second) c
    | _ => .ok (first, c)

def readCommand (fuel : Nat) (c : Cursor) : Except Fault (Command × Cursor) :=
  match fuel with
  | 0 => .error c.fault
  | fuel + 1 =>
    match c.tokens with
    | .opening :: _ => do
      let (body, c) ← readList fuel c.next
      match c.tokens with
      | .closing :: _ => withRedirections (.subshell body) c.next
      | _ => .error (c.faultFor ")")
    | .arrow _ _ :: _ => do
      let (s, c) ← readSimple (c.tokens.length + 1) c { line := c.line }
      return (.simple s, c)
    | .here _ :: _ => do
      let (s, c) ← readSimple (c.tokens.length + 1) c { line := c.line }
      return (.simple s, c)
    | .word _ :: _ =>
      if c.isAt "\x7b" then do
        let (body, c) ← readList fuel c.next
        withRedirections body (← c.expect "\x7d")
      else if c.isAt "if" then do
        let (command, c) ← readConditional fuel c.next
        withRedirections command c
      else if c.isAt "while" || c.isAt "until" then do
        let (test, inner) ← readList fuel c.next
        let (body, inner) ← readBody fuel inner
        withRedirections (.loop (c.isAt "while") test body) inner
      else if c.isAt "for" then do
        let (name, words, c) ← readHeader c.next
        let (body, c) ← readBody fuel c.skipNewlines
        withRedirections (.forEach name words body) c
      else if c.isAt "case" then
        match c.next.tokens with
        | .word subject :: _ => do
          let c ← c.next.next.skipNewlines.expect "in"
          let (command, c) ← readChoices fuel subject c.skipNewlines
          withRedirections command c
        | _ => .error c.next.fault
      else if (c.keyword?.map isClosing).getD false then .error c.fault
      else do
        let (s, c) ← readSimple (c.tokens.length + 1) c { line := c.line }
        return (.simple s, c)
    | _ => .error c.fault

def readBody (fuel : Nat) (c : Cursor) : Except Fault (Command × Cursor) :=
  match fuel with
  | 0 => .error c.fault
  | fuel + 1 => do
    let (body, c) ← readList fuel (← c.expect "do")
    return (body, ← c.expect "done")

def readConditional (fuel : Nat) (c : Cursor) : Except Fault (Command × Cursor) :=
  match fuel with
  | 0 => .error c.fault
  | fuel + 1 => do
    let (test, c) ← readList fuel c
    let c ← c.expect "then"
    let (yes, c) ← readList fuel c
    if c.isAt "elif" then
      let (no, c) ← readConditional fuel c.next
      return (.conditional test yes no, c)
    else if c.isAt "else" then
      let (no, c) ← readList fuel c.next
      return (.conditional test yes no, ← c.expect "fi")
    else return (.conditional test yes .nothing, ← c.expect "fi")

def readChoices (fuel : Nat) (subject : Word) (c : Cursor) : Except Fault (Command × Cursor) :=
  match fuel with
  | 0 => .error c.fault
  | fuel + 1 =>
    if c.isAt "esac" then .ok (.nothing, c.next)
    else do
      let start := match c.tokens with
        | .opening :: _ => c.next
        | _ => c
      let (patterns, c) ← readPatterns (start.tokens.length + 1) start
      let (body, c) ← readList fuel c
      let c := match c.tokens with
        | .doubleSemicolon :: _ => c.next.skipNewlines
        | _ => c
      let (next, c) ← readChoices fuel subject c
      return (.choice subject patterns body next, c)

end

def read (script : String) : Except (Nat × Fault) Command := do
  let lines := (Text.splitOn '\n' script.toList).length
  match Token.scan script with
  | .error e => .error (lines, e)
  | .ok tokens =>
    match readList (8 * tokens.length + 8) ⟨tokens, 1⟩ with
    | .error e => .error (lines, e)
    | .ok (command, c) => if c.tokens.isEmpty then .ok command else .error (c.line, c.fault)

end Experiment.Shell
