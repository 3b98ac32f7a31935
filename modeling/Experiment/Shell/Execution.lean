import Experiment.Shell.Arithmetic
import Experiment.Shell.Expansion

/-!
# Executing commands of the shell

`Session.execute` carries out a command in a session. Loops may go on for ever, so the number of
steps is bounded; a session that comes to the bound has ended.
-/

namespace Experiment.Shell.Session

def counts (emptyToo : Bool) (value : Option String) : Bool :=
  match value with
  | some v => !emptyToo || v ≠ ""
  | none => false

def signalOf? (name : String) : Option Nat :=
  match OrderedMap.find? name [("HUP", 1), ("INT", 2), ("QUIT", 3), ("ABRT", 6), ("KILL", 9),
      ("USR1", 10), ("SEGV", 11), ("USR2", 12), ("PIPE", 13), ("ALRM", 14), ("TERM", 15)] with
  | some n => some n
  | none => name.toNat?

def killRequest : List String → Nat × List String
  | "-s" :: name :: rest => ((signalOf? name).getD 15, rest)
  | a :: rest =>
    match a.toList with
    | '-' :: name => ((signalOf? (String.ofList name)).getD 15, rest)
    | _ => (15, a :: rest)
  | [] => (15, [])

def sendSignal (s : Session) (c : Channels) (line : Nat) (arguments : List String) : Session :=
  let (signal, targets) := killRequest arguments
  if targets.contains (toString s.process) then
    if signal = 0 then { s with status := 0 } else { s with ended := some (.signal signal) }
  else { s.complain c line "kill: No such process" with status := 1 }

def exitWith (s : Session) (c : Channels) (line : Nat) (arguments : List String) : Session :=
  match arguments with
  | [] => { s with ended := some (.code s.status) }
  | a :: _ =>
    match a.toNat? with
    | some n => { s with ended := some (.code (n % 256)) }
    | none => s.abort c line ("exit: Illegal number: " ++ a)

def changeDirectory (s : Session) (c : Channels) (line : Nat) (path : FilePath) : Session :=
  match s.files.locate path with
  | .ok l =>
    if s.files.isDirectoryAt l then { s with files := { s.files with current := l }, status := 0 }
    else { s.complain c line ("cd: can't cd to " ++ path) with status := 2 }
  | .error _ => { s.complain c line ("cd: can't cd to " ++ path) with status := 2 }

def exportNames (s : Session) (arguments : List String) : Session :=
  { arguments.foldl (fun s a =>
      match Text.splitFirst? '=' a.toList with
      | some (name, value) => s.bind (String.ofList name) (String.ofList value)
      | none => s) s with status := 0 }

def unsetNames (s : Session) (arguments : List String) : Session :=
  { s with
    bindings := s.bindings.filter fun p => !arguments.contains p.1
    status := 0 }

def shiftArguments (s : Session) (c : Channels) (line : Nat) (arguments : List String) : Session :=
  let n := ((arguments.head?).bind String.toNat?).getD 1
  if s.arguments.length < n then s.abort c line "shift: can't shift that many"
  else { s with arguments := s.arguments.drop n, status := 0 }

def setOptions (s : Session) (arguments : List String) : Session :=
  match arguments with
  | [] => { s with status := 0 }
  | "--" :: rest => { s with arguments := rest, status := 0 }
  | a :: rest =>
    match a.toList with
    | '-' :: letters => setOptions { s with strict := s.strict || letters.contains 'e' } rest
    | '+' :: letters => setOptions { s with strict := s.strict && !letters.contains 'e' } rest
    | _ => { s with arguments := a :: rest, status := 0 }

def readLine (s : Session) (arguments : List String) : Session :=
  let (line, ended, s) := s.takeLine
  { s.bindWords line.toList (arguments.filter fun a => a ≠ "-r") with status := statusOf ended }

def leave (s : Session) (leaving : Nat → Leaving) (arguments : List String) : Session :=
  { s with
    status := 0
    leaving := some (leaving (((arguments.head?).bind String.toNat?).getD 1)) }

def endRound (s : Session) : Session × Bool :=
  match s.leaving with
  | none => (s, s.ended.isNone)
  | some (.continuing (n + 2)) => ({ s with leaving := some (.continuing (n + 1)) }, false)
  | some (.continuing _) => ({ s with leaving := none }, true)
  | some (.breaking (n + 2)) => ({ s with leaving := some (.breaking (n + 1)) }, false)
  | some (.breaking _) => ({ s with leaving := none }, false)

def builtin? (s : Session) (c : Channels) (line : Nat) (name : String) (arguments : List String) :
    Option Session :=
  match name with
  | "exit" => some (s.exitWith c line arguments)
  | "kill" => some (s.sendSignal c line arguments)
  | "cd" => some (s.changeDirectory c line (arguments.headD "/"))
  | "export" => some (s.exportNames arguments)
  | "unset" => some (s.unsetNames arguments)
  | "shift" => some (s.shiftArguments c line arguments)
  | "set" => some (s.setOptions arguments)
  | "read" => some (s.readLine arguments)
  | "break" => some (s.leave .breaking arguments)
  | "continue" => some (s.leave .continuing arguments)
  | "echo" =>
    some (match arguments with
      | "-n" :: rest => s.prints c (echoBytes false rest)
      | _ => s.prints c (echoBytes true arguments))
  | _ => none

/-- Programs in a directory of the system are called by their last component. -/
def programName (name : String) : String :=
  match Text.afterStart? "/bin/".toList name.toList with
  | some rest => String.ofList rest
  | none =>
    match Text.afterStart? "/usr/bin/".toList name.toList with
    | some rest => String.ofList rest
    | none => name

def readsInput (name : String) (arguments : List String) : Bool :=
  name ∈ ["cat", "head", "tail", "wc"] && arguments.all Program.isOption

/-- Programs that the shell has in itself; it complains in their place. -/
def isOwn (name : String) : Bool :=
  name ∈ ["printf", "test", "["]

def runProgram (s : Session) (c : Channels) (line : Nat) (name : String)
    (arguments : List String) : Session :=
  match Program.find? (programName name) with
  | some program =>
    let e := program ⟨s.files, s.input, s.bindings, arguments⟩
    let errors := if e.errors ≠ "" && isOwn name then
        s.name ++ ": " ++ toString line ++ ": " ++ e.errors
      else e.errors
    let s' := s.apply c { e with errors }
    if readsInput (programName name) arguments then { s' with input := ByteArray.empty } else s'
  | none =>
    if name.toList.contains '/' && s.files.exists? name then
      { s.complain c line (name ++ ": Permission denied") with status := 126 }
    else { s.complain c line (name ++ ": not found") with status := 127 }

def outputText (b : ByteArray) : String :=
  String.ofList (Text.dropRightWhile (· = '\n') ((String.fromUTF8? b).getD "").toList)

def quotedWord (s : String) : Word :=
  match Token.scanWord (3 * s.length + 6) .quoted (s.toList ++ ['"']) [] with
  | .ok (w, _) => w
  | .error _ => [.text s true]

mutual

def expandWord (fuel : Nat) (s : Session) (c : Channels) (w : Word) : Session × List Part :=
  match fuel with
  | 0 => (s, [])
  | fuel + 1 =>
    match w with
    | [] => (s, [])
    | f :: rest =>
      let (s, parts) := expandFragment fuel s c f
      let (s, more) := expandWord fuel s c rest
      (s, parts ++ more)

def expandFragment (fuel : Nat) (s : Session) (c : Channels) (f : Fragment) :
    Session × List Part :=
  match fuel with
  | 0 => (s, [])
  | fuel + 1 =>
    match f with
    | .text t quoted => (s, [.literal t quoted])
    | .reference name adjustment word quoted =>
      let found := s.lookUp? name
      let value := found.getD ""
      let standIn (s : Session) (parts : List Part) : Session × List Part :=
        (s, if quoted then parts else parts.map Part.asValue)
      match adjustment with
      | .asIs =>
        if name = "@" && quoted then (s, [.arguments s.arguments])
        else (s, [.value value quoted])
      | .length => (s, [.value (toString value.length) quoted])
      | .orElse emptyToo =>
        if counts emptyToo found then (s, [.value value quoted])
        else
          let (s, parts) := expandWord fuel s c word
          standIn s parts
      | .orAssign emptyToo =>
        if counts emptyToo found then (s, [.value value quoted])
        else
          let (s, parts) := expandWord fuel s c word
          (s.bind name (Part.text parts), [.value (Part.text parts) quoted])
      | .instead emptyToo =>
        if counts emptyToo found then
          let (s, parts) := expandWord fuel s c word
          standIn s parts
        else (s, [.value "" quoted])
      | .withoutStart longest =>
        let (s, parts) := expandWord fuel s c word
        let gs := Glob.ofMarked (Part.marked parts)
        (s, [.value (String.ofList (Glob.dropStart longest gs value.toList)) quoted])
      | .withoutEnd longest =>
        let (s, parts) := expandWord fuel s c word
        let gs := Glob.ofMarked (Part.marked parts)
        (s, [.value (String.ofList (Glob.dropEnd longest gs value.toList)) quoted])
    | .substitution script quoted =>
      let (after, bytes) := s.capture fun s sink =>
        runScript fuel s { c with first := sink, tested := false } script
      ({ after with status := s.status, substituted := after.status },
        [.value (outputText bytes) quoted])
    | .arithmetic expression quoted =>
      let (s, parts) := expandWord fuel s c (quotedWord expression)
      match Arithmetic.evaluate (fun name => (s.lookUp? name).getD "") (Part.text parts) with
      | some n => (s, [.value (toString n) quoted])
      | none =>
        (s.abort c 1 ("arithmetic expression: division by zero: \"" ++ expression ++ "\""), [])

def expandFields (fuel : Nat) (s : Session) (c : Channels) (words : List Word) :
    Session × List String :=
  match fuel with
  | 0 => (s, [])
  | fuel + 1 =>
    match words with
    | [] => (s, [])
    | w :: rest =>
      let (s, parts) := expandWord fuel s c w
      let (s, more) := expandFields fuel s c rest
      (s, Part.fields s.files parts ++ more)

def assignAll (fuel : Nat) (s : Session) (c : Channels) (assignments : List (String × Word)) :
    Session :=
  match fuel with
  | 0 => s
  | fuel + 1 =>
    match assignments with
    | [] => s
    | (name, w) :: rest =>
      let (s, parts) := expandWord fuel s c w
      assignAll fuel (s.bind name (Part.text parts)) c rest

def redirect (fuel : Nat) (s : Session) (c : Channels) (redirections : List Redirection) :
    Session × Except String Channels :=
  match fuel with
  | 0 => (s, .ok c)
  | fuel + 1 =>
    match redirections with
    | [] => (s, .ok c)
    | .duplicate source target :: rest => redirect fuel s (c.set source (c.get target)) rest
    | .write source path :: rest =>
      let (s, parts) := expandWord fuel s c path
      match s.direct c false source (Part.text parts) with
      | (s, .ok c) => redirect fuel s c rest
      | failed => failed
    | .append source path :: rest =>
      let (s, parts) := expandWord fuel s c path
      match s.direct c true source (Part.text parts) with
      | (s, .ok c) => redirect fuel s c rest
      | failed => failed
    | .read path :: rest =>
      let (s, parts) := expandWord fuel s c path
      match s.readFrom (Part.text parts) with
      | .ok s => redirect fuel s c rest
      | .error e => (s, .error e)
    | .here content :: rest =>
      let (s, parts) := expandWord fuel s c content
      redirect fuel { s with input := (Part.text parts).toUTF8 } c rest

def call (fuel : Nat) (s : Session) (c : Channels) (line : Nat) (name : String)
    (arguments : List String) : Session :=
  match fuel with
  | 0 => s
  | fuel + 1 =>
    match s.builtin? c line name arguments with
    | some s => s
    | none =>
      if name = "eval" then runScript fuel s c (Text.joinWith " " arguments)
      else if name = "exec" then
        match arguments with
        | [] => { s with status := 0 }
        | name :: arguments =>
          if (Program.find? (programName name)).isNone && !(name ∈ ["echo", "sh"]) then
            { s.complain c line ("exec: " ++ name ++ ": not found") with ended := some (.code 127) }
          else
            let s := call fuel s c line name arguments
            { s with ended := some s.exitStatus }
      else if programName name = "sh" then
        let inner := runShell fuel
          { files := s.files, bindings := s.bindings, input := s.input, process := s.process + 1 }
          arguments
        let s := { s with
          files := { inner.files with current := s.files.current }
          status := numberOf inner.exitStatus }
        (s.print c.first inner.output.data.toList).print c.second inner.errors.data.toList
      else s.runProgram c line name arguments

/-- A shell with these arguments; without any it reads its script from the input. -/
def runShell (fuel : Nat) (s : Session) (arguments : List String) : Session :=
  match fuel with
  | 0 => s
  | fuel + 1 =>
    match arguments with
    | [] =>
      runScript fuel { s with input := ByteArray.empty } {} ((String.fromUTF8? s.input).getD "")
    | ["-c"] => s.abort {} 0 "-c requires an argument"
    | "-c" :: script :: [] => runScript fuel s {} script
    | "-c" :: script :: name :: arguments => runScript fuel { s with name, arguments } {} script
    | "-e" :: rest => runShell fuel { s with strict := true } rest
    | "-ec" :: rest => runShell fuel { s with strict := true } ("-c" :: rest)
    | path :: arguments =>
      match s.files.readText path with
      | .ok script => runScript fuel { s with name := path, arguments } {} script
      | .error e => s.abort {} 0 (cannotOpen path e)

def executeSimple (fuel : Nat) (s : Session) (c : Channels) (command : SimpleCommand) : Session :=
  match fuel with
  | 0 => s
  | fuel + 1 =>
    let (s, fields) := expandFields fuel { s with substituted := 0 } c command.words
    if s.isHalted then s
    else
      match redirect fuel s c command.redirections with
      | (s, .error e) => { s.complain c command.line e with status := 2 }
      | (redirected, .ok inner) =>
        match fields with
        | [] =>
          let s := assignAll fuel { redirected with input := s.input } c command.assignments
          { s with status := s.substituted }
        | name :: arguments =>
          let ready := assignAll fuel redirected c command.assignments
          let done := call fuel ready inner command.line name arguments
          { done with
            bindings := if command.assignments.isEmpty then done.bindings else s.bindings
            input := if command.redirections.isEmpty then done.input else s.input }

def fitsAny (fuel : Nat) (s : Session) (c : Channels) (subject : List Char)
    (patterns : List Word) : Session × Bool :=
  match fuel with
  | 0 => (s, false)
  | fuel + 1 =>
    match patterns with
    | [] => (s, false)
    | w :: rest =>
      let (s, parts) := expandWord fuel s c w
      if Glob.fits (Glob.ofMarked (Part.marked parts)) subject then (s, true)
      else fitsAny fuel s c subject rest

def executeFor (fuel : Nat) (s : Session) (c : Channels) (name : String) (values : List String)
    (body : Command) : Session :=
  match fuel with
  | 0 => s
  | fuel + 1 =>
    match values with
    | [] => s
    | v :: rest =>
      match (execute fuel (s.bind name v) c body).endRound with
      | (s, true) => executeFor fuel s c name rest body
      | (s, false) => s

def executeLoop (fuel : Nat) (s : Session) (c : Channels) (whileTrue : Bool) (test body : Command)
    (status : Nat) : Session :=
  match fuel with
  | 0 => { s with ended := some (.code 2) }
  | fuel + 1 =>
    let s := execute fuel s c.asTest test
    if s.isHalted then s.endRound.1
    else if (s.status = 0) = whileTrue then
      match (execute fuel s c body).endRound with
      | (s, true) => executeLoop fuel s c whileTrue test body s.status
      | (s, false) => s
    else { s with status }

def execute (fuel : Nat) (s : Session) (c : Channels) (command : Command) : Session :=
  match fuel with
  | 0 => s
  | fuel + 1 =>
    if s.isHalted then s
    else
      match command with
      | .nothing => s
      | .simple command => (executeSimple fuel s c command).check c
      | .sequence first second => execute fuel (execute fuel s c first) c second
      | .andThen first second =>
        let s := execute fuel s c.asTest first
        if s.status = 0 then execute fuel s c second else s
      | .orElse first second =>
        let s := execute fuel s c.asTest first
        if s.status = 0 then s else execute fuel s c second
      | .negation command =>
        let s := execute fuel s c.asTest command
        { s with status := statusOf (s.status ≠ 0) }
      | .pipe first second =>
        let (passed, bytes) := s.capture fun s sink => execute fuel s { c with first := sink } first
        let inner := execute fuel { passed with input := bytes } c second
        (s.after inner).check c
      | .subshell body => (s.after (execute fuel s c body)).check c
      | .conditional test yes no =>
        let s := execute fuel s c.asTest test
        if s.isHalted then s
        else if s.status = 0 then execute fuel { s with status := 0 } c yes
        else execute fuel { s with status := 0 } c no
      | .choice subject patterns body next =>
        let (s, parts) := expandWord fuel s c subject
        match fitsAny fuel s c (Part.text parts).toList patterns with
        | (s, true) => execute fuel { s with status := 0 } c body
        | (s, false) => execute fuel { s with status := 0 } c next
      | .forEach name words body =>
        let (s, values) := expandFields fuel s c words
        executeFor fuel { s with status := 0 } c name values body
      | .loop whileTrue test body => executeLoop fuel s c whileTrue test body 0
      | .redirected line command redirections =>
        match redirect fuel s c redirections with
        | (s, .error e) => { s.complain c line e with status := 2 }
        | (inner, .ok channels) => { execute fuel inner channels command with input := s.input }

def runScript (fuel : Nat) (s : Session) (c : Channels) (script : String) : Session :=
  match fuel with
  | 0 => s
  | fuel + 1 =>
    match read script with
    | .ok command => execute fuel s c command
    | .error (line, fault) => s.abort c line fault.message

end

def stepLimit : Nat := 1000000

def shell (s : Session) (arguments : List String) : Session :=
  runShell stepLimit s arguments

end Experiment.Shell.Session
