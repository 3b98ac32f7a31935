import Experiment.Shell.Pattern
import Experiment.Shell.Program
import Experiment.Shell.Reader

/-!
# Sessions of the shell

What a shell keeps between commands: files, variables, arguments, the input that is left, what has
been printed and the last status. A session that has ended does nothing any more.
-/

namespace Experiment.Shell

inductive ExitStatus where
  | code (n : Nat)
  | signal (n : Nat)
deriving DecidableEq, Inhabited

inductive Leaving where
  | breaking (loops : Nat)
  | continuing (loops : Nat)
deriving DecidableEq

structure Session where
  files : FileTree
  bindings : OrderedMap String := []
  name : String := "sh"
  arguments : List String := []
  /-- The number of its process. -/
  process : Nat := 4242
  status : Nat := 0
  /-- The status of the last script whose output was substituted. -/
  substituted : Nat := 0
  input : ByteArray := ByteArray.empty
  output : ByteArray := ByteArray.empty
  errors : ByteArray := ByteArray.empty
  /-- What is on its way through pipes, the outermost one first. -/
  pipes : List ByteArray := []
  /-- A command that fails ends the session. -/
  strict : Bool := false
  ended : Option ExitStatus := none
  leaving : Option Leaving := none

inductive Sink where
  | output
  | errors
  | pipe (i : Nat)
  | file (place : Location)
  | nowhere
deriving DecidableEq

/-- The descriptors 1 and 2, and whether the status of a command is only asked for. -/
structure Channels where
  first : Sink := .output
  second : Sink := .errors
  tested : Bool := false

namespace Channels

def get (c : Channels) (n : Nat) : Sink :=
  if n = 2 then c.second else c.first

def set (c : Channels) (n : Nat) (sink : Sink) : Channels :=
  if n = 1 then { c with first := sink } else if n = 2 then { c with second := sink } else c

def asTest (c : Channels) : Channels :=
  { c with tested := true }

end Channels

namespace Session

def isHalted (s : Session) : Bool :=
  s.ended.isSome || s.leaving.isSome

def lookUp? (s : Session) (name : String) : Option String :=
  if name = "$" then some (toString s.process)
  else if name = "?" then some (toString s.status)
  else if name = "#" then some (toString s.arguments.length)
  else if name = "@" || name = "*" then some (Text.joinWith " " s.arguments)
  else
    match name.toNat? with
    | some 0 => some s.name
    | some (n + 1) => s.arguments[n]?
    | none => OrderedMap.find? name s.bindings

def bind (s : Session) (name value : String) : Session :=
  { s with bindings := OrderedMap.insert name value s.bindings }

def print (s : Session) (sink : Sink) (bytes : List UInt8) : Session :=
  match sink with
  | .output => { s with output := s.output ++ ⟨bytes.toArray⟩ }
  | .errors => { s with errors := s.errors ++ ⟨bytes.toArray⟩ }
  | .nowhere => s
  | .pipe i => { s with pipes := s.pipes.modify i fun b => b ++ ⟨bytes.toArray⟩ }
  | .file place =>
    match s.files.entry? place with
    | some (.file b) => { s with files := s.files.put place (.file (b ++ ⟨bytes.toArray⟩)) }
    | _ => s

def complain (s : Session) (c : Channels) (line : Nat) (message : String) : Session :=
  s.print c.second (bytesOf (s.name ++ ": " ++ toString line ++ ": " ++ message ++ "\n"))

def abort (s : Session) (c : Channels) (line : Nat) (message : String) : Session :=
  { s.complain c line message with ended := some (.code 2) }

def exitStatus (s : Session) : ExitStatus :=
  s.ended.getD (.code s.status)

def numberOf : ExitStatus → Nat
  | .code n => n
  | .signal n => 128 + n

/-- What a part of a session that ran by itself leaves behind. Only a signal ends the whole. -/
def after (s inner : Session) : Session :=
  { s with
    files := { inner.files with current := s.files.current }
    output := inner.output
    errors := inner.errors
    pipes := inner.pipes
    status := numberOf inner.exitStatus
    ended := match inner.ended with
      | some (.signal n) => some (.signal n)
      | _ => none }

def capture (s : Session) (run : Session → Sink → Session) : Session × ByteArray :=
  let inner := run { s with pipes := s.pipes ++ [ByteArray.empty] } (.pipe s.pipes.length)
  (s.after { inner with pipes := inner.pipes.take s.pipes.length },
    inner.pipes.getD s.pipes.length ByteArray.empty)

/-- A command that failed ends a strict session, unless its status is only asked for. -/
def check (s : Session) (c : Channels) : Session :=
  if s.strict && !c.tested && s.status ≠ 0 && !s.isHalted then
    { s with ended := some (.code s.status) }
  else s

def openFile (s : Session) (keep : Bool) (path : FilePath) : Except OsError (Session × Sink) :=
  if path = nullDevice then .ok (s, .nowhere)
  else
    match s.files.writable path with
    | .error e => .error e
    | .ok place =>
      match s.files.entry? place with
      | some (.file b) =>
        let content := if keep then b else ByteArray.empty
        .ok ({ s with files := s.files.put place (.file content) }, .file place)
      | _ =>
        match s.files.write path ByteArray.empty with
        | .ok files => .ok ({ s with files }, .file place)
        | .error e => .error e

def cannotCreate (path : FilePath) : OsError → String
  | .notFound => "cannot create " ++ path ++ ": Directory nonexistent"
  | e => "cannot create " ++ path ++ ": " ++ e.reason

def cannotOpen (path : FilePath) : OsError → String
  | .notFound => "cannot open " ++ path ++ ": No such file"
  | e => "cannot open " ++ path ++ ": " ++ e.reason

def direct (s : Session) (c : Channels) (keep : Bool) (source : Nat) (path : FilePath) :
    Session × Except String Channels :=
  match s.openFile keep path with
  | .ok (s, sink) => (s, .ok (c.set source sink))
  | .error e => (s, .error (cannotCreate path e))

def readFrom (s : Session) (path : FilePath) : Except String Session :=
  if path = nullDevice then .ok { s with input := ByteArray.empty }
  else
    match s.files.read path with
    | .ok b => .ok { s with input := b }
    | .error e => .error (cannotOpen path e)

/-- The first line of the input, whether a line break ended it, and the session behind it. -/
def takeLine (s : Session) : String × Bool × Session :=
  let bytes := s.input.data.toList
  let first := bytes.takeWhile (· ≠ 10)
  let rest := bytes.drop (first.length + 1)
  ((String.fromUTF8? ⟨first.toArray⟩).getD "", first.length < bytes.length,
    { s with input := ⟨rest.toArray⟩ })

/-- Each name gets a word of the line, the last one all that is left. -/
def bindWords (s : Session) (cs : List Char) : List String → Session
  | [] => s
  | [name] => s.bind name (String.ofList (Text.trimChars cs))
  | name :: names =>
    let cs := Text.trimLeft cs
    let first := cs.takeWhile fun c => !Text.isBlank c
    (s.bind name (String.ofList first)).bindWords (cs.drop first.length) names

def apply (s : Session) (c : Channels) (e : Effect) : Session :=
  let s := { s with files := e.files, status := e.status }
  (s.print c.first e.output).print c.second (bytesOf e.errors)

def prints (s : Session) (c : Channels) (bytes : List UInt8) : Session :=
  { s.print c.first bytes with status := 0 }

end Session

end Experiment.Shell
