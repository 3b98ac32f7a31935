import Experiment.Cli.Dispatch
import Std.Time.DateTime

/-!
# The program

Reads the files below the current directory into a world, carries out the command there and writes
back the files that it made or changed.
-/

namespace Experiment.Main

def hexByte (b : UInt8) : List Char :=
  [Nat.digitChar (b.toNat / 16), Nat.digitChar (b.toNat % 16)]

def freshSeed : IO String := do
  let bytes ← IO.getRandomBytes 16
  return String.ofList (bytes.data.toList.flatMap hexByte)

def currentTime : IO Timestamp := do
  let t ← Std.Time.Timestamp.now
  let nanos := t.toNanosecondsSinceUnixEpoch.val
  return ⟨nanos / 1000000000, (nanos % 1000000000).toNat⟩

/-- A location and the directories above it, which are there too. -/
def withParents (tree : FileTree) (path : FilePath) : FileTree :=
  (tree.createDirectories path).1

def addFile (tree : FileTree) (path : FilePath) (bytes : ByteArray) : FileTree :=
  let tree := match FilePath.parent? path with
    | some parent => withParents tree parent
    | none => tree
  match tree.write path bytes with
  | .ok tree => tree
  | .error _ => tree

def readTree : IO FileTree := do
  let here ← IO.currentDir
  let base := withParents {} here.toString
  let mut tree : FileTree := { base with current := FileTree.steps here.toString }
  for path in ← here.walkDir do
    if ← path.isDir then tree := withParents tree path.toString
    else tree := addFile tree path.toString (← IO.FS.readBinFile path)
  return tree

def candidates (files : FileTree) (c : Cli.CommandLine) : List Run :=
  match Project.load files c.project with
  | .error _ => []
  | .ok p =>
    match c.command with
    | .run target _ =>
      match Cli.resolveTarget files p target with
      | .ok run => [run]
      | .error _ => []
    | _ => []

def readEnvironment (runs : List Run) : IO (OrderedMap String) := do
  let mut environment : OrderedMap String := []
  for name in runs.flatMap Secrets.environmentNames do
    if let some value ← IO.getEnv name then
      environment := OrderedMap.insert name value environment
  return environment

def absolute (l : Location) : String :=
  "/" ++ Text.joinWith "/" l

def writeEntry (before : FileTree) (l : Location) : Entry → IO Unit
  | .directory => IO.FS.createDirAll (absolute l)
  | .file bytes =>
    match before.entry? l with
    | some (.file old) =>
      if old.data = bytes.data then pure () else IO.FS.writeBinFile (absolute l) bytes
    | _ => IO.FS.writeBinFile (absolute l) bytes

def writeTree (before after : FileTree) : IO Unit := do
  for (l, e) in after.entries do
    writeEntry before l e

def usage : String :=
  "Usage: runkit [-C DIR] [-v] [-q] <run | expand | list> [ARGUMENTS]\n"

def usageText : Cli.UsageError → String
  | .help | .helpForNothing => ""
  | .version => ""
  | .missingSubcommand => "error: a subcommand is required\n"
  | .invalidSubcommand => "error: unrecognized subcommand\n"
  | .missingArgument => "error: a required argument was not provided\n"
  | .unknownArgument => "error: unexpected argument\n"
  | .missingValue => "error: a value is required\n"
  | .invalidValue => "error: invalid value\n"
  | .unexpectedValue => "error: unexpected value\n"
  | .repeated => "error: an argument cannot be used multiple times\n"

def refuse (e : Cli.UsageError) : IO UInt32 := do
  match e with
  | .help =>
    IO.print usage
    return 0
  | .version =>
    IO.println "runkit 0.1.0"
    return 0
  | e =>
    IO.eprint (usageText e ++ usage)
    return 2

def carryOut (c : Cli.CommandLine) : IO UInt32 := do
  let files ← readTree
  let environment ← readEnvironment (candidates files c)
  let world : World :=
    { files, environment, clock := ← currentTime, seed := ← freshSeed }
  let (outcome, after) := (Cli.dispatch c).run world
  writeTree files after.files
  IO.eprint outcome.progress
  IO.print outcome.output
  match outcome.failure with
  | some (.run (.overflow cause)) =>
    IO.eprintln ("panicked: " ++ cause.message)
    return 101
  | some failure =>
    IO.eprintln ("Error: " ++ failure.message)
    return 1
  | none => return 0

end Experiment.Main

def main (arguments : List String) : IO UInt32 :=
  match Experiment.Cli.parseCommandLine arguments with
  | .ok c => Experiment.Main.carryOut c
  | .error e => Experiment.Main.refuse e
