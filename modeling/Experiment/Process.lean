import Experiment.Shell.Execution

/-!
# Programs

What a launched program prints, how it ends and what it makes of the files is up to the machine.
`Process.plain` is a machine with the shell, `echo` and the small programs of `Shell.Program`; there
is no other program on it.
-/

namespace Experiment

structure Launch where
  command : String
  arguments : List String := []
  workdir : Option String := none
  environment : OrderedMap String := []

structure ProcessOutput where
  output : ByteArray
  errors : ByteArray
  status : Shell.ExitStatus

/-- What comes of each launch on a machine, the launches being numbered: some output and new files,
unless the program cannot be started. -/
abbrev Programs := Nat → FileTree → Launch → Except OsError (ProcessOutput × FileTree)

namespace Process

/-- The longest argument or variable that a program can be given, in bytes. -/
def argumentLimit : Nat := 131071

def hasNul (s : String) : Bool :=
  s.toList.contains '\x00'

def texts (i : Launch) : List String :=
  i.command :: i.arguments ++ i.environment.map fun p => p.1 ++ "=" ++ p.2

def program? (command : String) : Option String :=
  let name := Shell.Session.programName command
  if name = "sh" || name = "echo" then some name
  else if (Shell.Program.find? name).isSome && name ≠ ":" then some name
  else none

/-- A path that leads to a file cannot be executed, for no file here is a program. -/
def missing (files : FileTree) (command : String) : OsError :=
  if command.toList.contains '/' then
    match files.look command with
    | .ok _ => .permissionDenied
    | .error e => e
  else .notFound

/-- The files as seen from the directory of a process. -/
def enter (files : FileTree) (workdir : Option String) : Except OsError FileTree :=
  match workdir with
  | none => .ok files
  | some dir =>
    match files.locate dir with
    | .error e => .error e
    | .ok l =>
      match files.entry? l with
      | none => .error .notFound
      | some (.file _) => .error .notDirectory
      | some .directory => .ok { files with current := l }

/-- The options of `echo`: whether a line break ends the output and whether escapes count. -/
def echoOptions : List String → Bool × Bool → (Bool × Bool) × List String
  | [], o => (o, [])
  | a :: rest, o =>
    match a.toList with
    | '-' :: letter :: letters =>
      if (letter :: letters).all fun c => c = 'n' || c = 'e' || c = 'E' then
        echoOptions rest <| (letter :: letters).foldl (fun o c =>
          if c = 'n' then (false, o.2) else (o.1, decide (c = 'e'))) o
      else (o, a :: rest)
    | _ => (o, a :: rest)

def echoProgram (arguments : List String) : List UInt8 :=
  let ((newline, escapes), words) := echoOptions arguments (true, false)
  if escapes then Shell.echoBytes newline words
  else Shell.bytesOf (Text.joinWith " " words) ++ (if newline then [10] else [])

def execute (s : Shell.Session) (name : String) (arguments : List String) : Shell.Session :=
  if name = "sh" then s.shell arguments
  else if name = "echo" then s.prints {} (echoProgram arguments)
  else s.runProgram {} 1 name arguments

def start (files : FileTree) (i : Launch) : Except OsError Shell.Session :=
  if (texts i).any hasNul || (i.workdir.map hasNul).getD false then .error .nulArgument
  else
    match enter files i.workdir with
    | .error e => .error e
    | .ok files =>
      if (texts i).any fun s => argumentLimit < s.utf8ByteSize then .error .tooLarge
      else
        match program? i.command with
        | none => .error (missing files i.command)
        | some name => .ok (execute { files, bindings := i.environment } name i.arguments)

/-- A machine whose programs have no memory of their own. -/
def plain : Programs := fun _ files i =>
  (start files i).map fun s =>
    ({ output := s.output, errors := s.errors, status := s.exitStatus }, s.files)

end Process

end Experiment
