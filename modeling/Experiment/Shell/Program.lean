import Experiment.FileTree
import Experiment.OrderedMap
import Experiment.Shell.Printf

/-!
# Programs

The small programs that a script calls. A program is given files, an input, variables and
arguments; it prints on two channels, may change files and leaves a status.
-/

namespace Experiment.Shell

structure Request where
  files : FileTree
  input : ByteArray
  bindings : OrderedMap String
  arguments : List String

structure Effect where
  files : FileTree
  output : List UInt8 := []
  errors : String := ""
  status : Nat := 0

def nullDevice : FilePath := "/dev/null"

def statusOf (b : Bool) : Nat :=
  if b then 0 else 1

namespace Request

def prints (r : Request) (output : List UInt8) : Effect :=
  { files := r.files, output }

def ends (r : Request) (status : Nat) : Effect :=
  { files := r.files, status }

def complains (r : Request) (errors : String) (status : Nat) : Effect :=
  { files := r.files, errors := errors ++ "\n", status }

def content (r : Request) (path : FilePath) : Except OsError ByteArray :=
  if path = "-" then .ok r.input
  else if path = nullDevice then .ok ByteArray.empty
  else r.files.read path

/-- The contents of files one after the other, or the input; there is a complaint for each that
cannot be read. -/
def gather (r : Request) (name : String) (paths : List FilePath) : Effect :=
  (if paths.isEmpty then ["-"] else paths).foldl (fun e path =>
    match r.content path with
    | .ok b => { e with output := e.output ++ b.data.toList }
    | .error cause =>
      { e with
        errors := e.errors ++ name ++ ": " ++ path ++ ": " ++ cause.reason ++ "\n"
        status := 1 }) { files := r.files }

def forFiles (r : Request) (paths : List FilePath)
    (f : FileTree → FilePath → Except String FileTree) : Effect :=
  paths.foldl (fun e path =>
    match f e.files path with
    | .ok files => { e with files }
    | .error message => { e with errors := e.errors ++ message ++ "\n", status := 1 })
    { files := r.files }

end Request

namespace Test

def unary? (files : FileTree) (operator s : String) : Option Bool :=
  match operator with
  | "-n" => some (s ≠ "")
  | "-z" => some (s = "")
  | "-f" => some (files.isFile s)
  | "-d" => some (files.isDirectory s)
  | "-e" | "-r" | "-w" => some (files.exists? s)
  | "-s" => some (match files.read s with
    | .ok b => b.size ≠ 0
    | .error _ => files.isDirectory s)
  | _ => none

def binary? (operator a b : String) : Option Bool :=
  let m := a.toInt?.getD 0
  let n := b.toInt?.getD 0
  match operator with
  | "=" => some (a = b)
  | "!=" => some (a ≠ b)
  | "-eq" => some (m = n)
  | "-ne" => some (m ≠ n)
  | "-lt" => some (m < n)
  | "-le" => some (m ≤ n)
  | "-gt" => some (n < m)
  | "-ge" => some (n ≤ m)
  | _ => none

def single (files : FileTree) : List String → Bool
  | [] => false
  | [s] => s ≠ ""
  | "!" :: rest => !single files rest
  | [operator, s] => (unary? files operator s).getD false
  | [a, operator, b] => (binary? operator a b).getD false
  | _ => false

def splitAt (mark : String) : List String → List (List String)
  | [] => [[]]
  | a :: rest =>
    match splitAt mark rest with
    | [] => [[a]]
    | part :: parts => if a = mark then [] :: part :: parts else (a :: part) :: parts

def holds (files : FileTree) (arguments : List String) : Bool :=
  (splitAt "-o" arguments).any fun part => (splitAt "-a" part).all (single files)

end Test

namespace Program

def lines : List UInt8 → List (List UInt8)
  | [] => []
  | b :: rest =>
    if b = 10 then [b] :: lines rest
    else
      match lines rest with
      | [] => [[b]]
      | first :: others => (b :: first) :: others

def countWords (bytes : List UInt8) : Nat :=
  (bytes.foldl (fun (p : Nat × Bool) b =>
    let blank := b = 32 || (9 ≤ b && b ≤ 13)
    (if !blank && p.2 then p.1 + 1 else p.1, blank)) (0, true)).1

/-- The count that an option asks for, whether it counts bytes, and the other arguments. -/
def countOption (arguments : List String) : Nat × Bool × List String :=
  match arguments with
  | "-n" :: n :: rest => (n.toNat?.getD 0, false, rest)
  | "-c" :: n :: rest => (n.toNat?.getD 0, true, rest)
  | a :: rest =>
    match a.toList with
    | '-' :: 'n' :: digits => (numberOf digits, false, rest)
    | '-' :: 'c' :: digits => (numberOf digits, true, rest)
    | '-' :: c :: digits =>
      if c.isDigit then (numberOf (c :: digits), false, rest) else (10, false, arguments)
    | _ => (10, false, arguments)
  | [] => (10, false, [])

def takeEnd {α : Type} (n : Nat) (xs : List α) : List α :=
  xs.drop (xs.length - n)

def part (name : String) (first : Bool) (r : Request) : Effect :=
  let (count, bytes, paths) := countOption r.arguments
  let e := r.gather name paths
  let cut {α : Type} (xs : List α) : List α := if first then xs.take count else takeEnd count xs
  { e with output := if bytes then cut e.output else (cut (lines e.output)).flatten }

def count (r : Request) : Effect :=
  match r.arguments with
  | option :: paths =>
    let e := r.gather "wc" paths
    let n := if option = "-l" then e.output.count 10
      else if option = "-w" then countWords e.output
      else e.output.length
    let label := match paths with
      | [path] => " " ++ path
      | _ => ""
    { e with output := bytesOf (toString n ++ label ++ "\n") }
  | [] =>
    let bytes := r.input.data.toList
    let column (n : Nat) : String :=
      String.ofList (List.replicate (7 - (toString n).length) ' ') ++ toString n
    r.prints (bytesOf (column (bytes.count 10) ++ " " ++ column (countWords bytes) ++ " "
      ++ column bytes.length ++ "\n"))

def numbers (r : Request) : Effect :=
  let range (low step high : Int) : Effect :=
    let size := if step = 0 then 0 else (Int.fdiv (high - low) step + 1).toNat
    r.prints ((List.range size).flatMap fun (i : Nat) =>
      bytesOf (toString (low + (i : Int) * step) ++ "\n"))
  match r.arguments.map String.toInt? with
  | [some high] => range 1 1 high
  | [some low, some high] => range low 1 high
  | [some low, some step, some high] => range low step high
  | _ => r.complains "seq: invalid argument" 1

def isOption (argument : String) : Bool :=
  match argument.toList with
  | '-' :: _ :: _ => true
  | _ => false

def makeDirectories (r : Request) : Effect :=
  let parents := r.arguments.any fun a => a = "-p"
  r.forFiles (r.arguments.filter fun a => !isOption a) fun files path =>
    let refuse (e : OsError) : Except String FileTree :=
      .error ("mkdir: cannot create directory '" ++ path ++ "': " ++ e.reason)
    if !parents && files.exists? path then refuse .exists
    else if !parents && !files.isDirectory (((FilePath.parent? path).map fun p =>
        if p = "" then "." else p).getD ".") then refuse .notFound
    else
      match files.createDirectories path with
      | (files, none) => .ok files
      | (_, some e) => refuse e

def removeFiles (r : Request) : Effect :=
  let options := (r.arguments.filter isOption).flatMap String.toList
  r.forFiles (r.arguments.filter fun a => !isOption a) fun files path =>
    let refuse (e : OsError) : Except String FileTree :=
      .error ("rm: cannot remove '" ++ path ++ "': " ++ e.reason)
    match files.look path, files.locate path with
    | .error e, _ => if options.contains 'f' then .ok files else refuse e
    | _, .error e => refuse e
    | .ok .directory, .ok l =>
      if options.contains 'r' || options.contains 'R' then .ok (files.remove l)
      else refuse .isDirectory
    | .ok (.file _), .ok l => .ok (files.remove l)

def touch (r : Request) : Effect :=
  r.forFiles r.arguments fun files path =>
    if files.exists? path then .ok files
    else
      match files.write path ByteArray.empty with
      | .ok files => .ok files
      | .error e => .error ("touch: cannot touch '" ++ path ++ "': " ++ e.reason)

/-- Where something goes: into a directory under its own name, or to a place of its own. -/
def destination (files : FileTree) (source target : FilePath) : FilePath :=
  if files.isDirectory target then FilePath.join target ((FilePath.fileName? source).getD "")
  else target

def copyFile (r : Request) : Effect :=
  match r.arguments with
  | [source, target] =>
    match r.files.copy source (destination r.files source target) with
    | .ok files => { files }
    | .error .notFound =>
      r.complains ("cp: cannot stat '" ++ source ++ "': " ++ OsError.notFound.reason) 1
    | .error e => r.complains ("cp: cannot copy '" ++ source ++ "': " ++ e.reason) 1
  | _ => r.complains "cp: missing file operand" 1

def moveFile (r : Request) : Effect :=
  match r.arguments with
  | [source, target] =>
    match r.files.look source, r.files.locate source,
      r.files.locate (destination r.files source target) with
    | .ok _, .ok l, .ok m => { files := r.files.move l m }
    | _, _, _ => r.complains ("mv: cannot stat '" ++ source ++ "': " ++ OsError.notFound.reason) 1
  | _ => r.complains "mv: missing file operand" 1

def baseName (r : Request) : Effect :=
  let strip (name ending : String) : String :=
    match Text.afterStart? ending.toList.reverse name.toList.reverse with
    | some [] => name
    | some rest => String.ofList rest.reverse
    | none => name
  match r.arguments with
  | path :: rest =>
    let name := (FilePath.fileName? path).getD path
    r.prints (bytesOf (strip name (rest.headD "") ++ "\n"))
  | [] => r.complains "basename: missing operand" 1

def parentName (r : Request) : Effect :=
  match r.arguments with
  | path :: _ =>
    let parent := (FilePath.parent? path).getD (if FilePath.isAbsolute path then "/" else ".")
    r.prints (bytesOf ((if parent = "" then "." else parent) ++ "\n"))
  | [] => r.complains "dirname: missing operand" 1

def printVariables (r : Request) : Effect :=
  let found := r.arguments.filterMap fun n => OrderedMap.find? n r.bindings
  { files := r.files
    output := found.flatMap fun v => bytesOf (v ++ "\n")
    status := statusOf (found.length = r.arguments.length) }

def listFiles (r : Request) : Effect :=
  let paths := r.arguments.filter fun a => !isOption a
  (if paths.isEmpty then ["."] else paths).foldl (fun e path =>
    match r.files.look path, r.files.locate path with
    | .ok .directory, .ok l =>
      let names := ((r.files.children l).map Prod.fst).filter fun n => n.toList.head? ≠ some '.'
      { e with
        output := e.output ++ (names.mergeSort fun a b => decide (a ≤ b)).flatMap fun n =>
          bytesOf (n ++ "\n") }
    | .ok (.file _), _ => { e with output := e.output ++ bytesOf (path ++ "\n") }
    | _, _ =>
      { e with
        errors := e.errors ++ "ls: cannot access '" ++ path ++ "': " ++ OsError.notFound.reason
          ++ "\n"
        status := 2 }) { files := r.files }

def find? (name : String) : Option (Request → Effect) :=
  match name with
  | "true" | ":" | "sleep" | "sync" => some fun r => r.ends 0
  | "false" => some fun r => r.ends 1
  | "printf" => some fun r =>
    match r.arguments with
    | [] => r.complains "printf: usage: printf format [arg ...]" 2
    | format :: rest => r.prints (printfBytes format rest)
  | "cat" => some fun r => r.gather "cat" (r.arguments.filter fun a => !isOption a)
  | "test" => some fun r => r.ends (statusOf (Test.holds r.files r.arguments))
  | "[" => some fun r =>
    if r.arguments.getLast? = some "]" then
      r.ends (statusOf (Test.holds r.files r.arguments.dropLast))
    else r.complains "[: missing ]" 2
  | "seq" => some numbers
  | "head" => some (part "head" true)
  | "tail" => some (part "tail" false)
  | "wc" => some count
  | "mkdir" => some makeDirectories
  | "rm" => some removeFiles
  | "touch" => some touch
  | "cp" => some copyFile
  | "ls" => some listFiles
  | "mv" => some moveFile
  | "basename" => some baseName
  | "dirname" => some parentName
  | "printenv" => some printVariables
  | _ => none

end Program

end Experiment.Shell
