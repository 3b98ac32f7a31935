import Experiment.Cli.Assignment
import Experiment.FilePath

/-!
# The command line

Options are read from left to right. The value of an option that stands in an argument of its own is
only looked at when the next option, a positional argument or the end comes, so an unknown option
right after it is reported first.
-/

namespace Experiment.Cli

/-- What is wrong with a command line, or asked of it in place of a command. -/
inductive UsageError where
  | help
  | version
  | helpForNothing
  | missingSubcommand
  | invalidSubcommand
  | missingArgument
  | unknownArgument
  | missingValue
  | invalidValue
  | unexpectedValue
  | repeated
deriving DecidableEq, Inhabited

structure Target where
  /-- A name or the path of a file. -/
  run : String := ""
  params : List (String × Json) := []
  hyperparams : List (String × List Json) := []
  list : Bool := false
  selector : Option String := none
  maxErrors : Option Nat := none

structure ExecutionOptions where
  runtime : Option String := none
  dryRun : Bool := false
  reportDir : Option FilePath := none
  database : Option String := none
  json : Bool := false

inductive Command where
  | run (target : Target) (options : ExecutionOptions)
  | expand (target : Target)
  | list

structure CommandLine where
  project : FilePath := "."
  quiet : Bool := false
  command : Command

inductive Flag where
  | project
  | verbose
  | quiet
  | help
  | version
  | param
  | hyper
  | list
  | selector
  | maxErrors
  | runtime
  | dryRun
  | reportDir
  | database
  | json
deriving DecidableEq

namespace Flag

def takesValue : Flag → Bool
  | .project | .param | .hyper | .selector | .maxErrors | .runtime | .reportDir | .database => true
  | _ => false

def isRepeatable : Flag → Bool
  | .verbose | .param | .hyper => true
  | _ => false

end Flag

abbrev FlagNames := List (String × Option Char × Flag)

def commonFlags : FlagNames :=
  [("verbose", some 'v', .verbose), ("quiet", some 'q', .quiet), ("help", some 'h', .help)]

def programFlags : FlagNames :=
  [("project", some 'C', .project), ("version", some 'V', .version)] ++ commonFlags

def targetFlags : FlagNames :=
  [("param", some 'p', .param), ("hyper", none, .hyper), ("list", none, .list),
    ("selector", none, .selector), ("max-errors", none, .maxErrors)] ++ commonFlags

def runFlags : FlagNames :=
  [("runtime", none, .runtime), ("dry-run", none, .dryRun), ("report-dir", none, .reportDir),
    ("rundb", none, .database), ("json", none, .json)] ++ targetFlags

def flagOf? (names : FlagNames) (long : String) : Option Flag :=
  (names.find? fun n => n.1 = long).map fun n => n.2.2

def letterOf? (names : FlagNames) (letter : Char) : Option Flag :=
  (names.find? fun n => n.2.1 = some letter).map fun n => n.2.2

structure Given where
  seen : List Flag := []
  project : FilePath := "."
  quiet : Bool := false
  positional : Option String := none
  target : Target := {}
  options : ExecutionOptions := {}

def count? (text : String) : Option Nat :=
  let digits := match text.toList with
    | '+' :: rest => rest
    | cs => cs
  if digits.isEmpty || !digits.all Char.isDigit then none
  else
    let n := digits.foldl (fun n c => n * 10 + (c.toNat - '0'.toNat)) 0
    if n < 0x10000000000000000 then some n else none

namespace Given

def setTarget (g : Given) (f : Target → Target) : Given :=
  { g with target := f g.target }

def setOptions (g : Given) (f : ExecutionOptions → ExecutionOptions) : Given :=
  { g with options := f g.options }

def setFlag (g : Given) (flag : Flag) (value : String) : Except UsageError Given :=
  match flag with
  | .help => .error .help
  | .version => .error .version
  | .verbose => .ok g
  | .quiet => .ok { g with quiet := true }
  | .project => if value = "" then .error .missingValue else .ok { g with project := value }
  | .param =>
    match parseParam value with
    | .ok p => .ok (g.setTarget fun t => { t with params := t.params ++ [p] })
    | .error _ => .error .invalidValue
  | .hyper =>
    match parseHyper value with
    | .ok p => .ok (g.setTarget fun t => { t with hyperparams := t.hyperparams ++ [p] })
    | .error _ => .error .invalidValue
  | .list => .ok (g.setTarget fun t => { t with list := true })
  | .selector => .ok (g.setTarget fun t => { t with selector := some value })
  | .maxErrors =>
    match count? value with
    | some n => .ok (g.setTarget fun t => { t with maxErrors := some n })
    | none => .error .invalidValue
  | .runtime => .ok (g.setOptions fun o => { o with runtime := some value })
  | .dryRun => .ok (g.setOptions fun o => { o with dryRun := true })
  | .reportDir =>
    if value = "" then .error .missingValue
    else .ok (g.setOptions fun o => { o with reportDir := some value })
  | .database => .ok (g.setOptions fun o => { o with database := some value })
  | .json => .ok (g.setOptions fun o => { o with json := true })

def add (g : Given) (flag : Flag) (value : String) : Except UsageError Given :=
  if !flag.isRepeatable && g.seen.contains flag then .error .repeated
  else setFlag { g with seen := flag :: g.seen } flag value

end Given

structure ArgumentReader where
  given : Given := {}
  /-- The option whose value is still to be looked at. -/
  pending : Option (Flag × Option String) := none
  /-- After two dashes everything is positional. -/
  trailing : Bool := false

namespace ArgumentReader

def resolve (r : ArgumentReader) : Except UsageError ArgumentReader :=
  match r.pending with
  | none => .ok r
  | some (_, none) => .error .missingValue
  | some (flag, some value) =>
    (r.given.add flag value).map fun given => { r with given, pending := none }

def react (r : ArgumentReader) (flag : Flag) (value : String) :
    Except UsageError ArgumentReader := do
  let r ← r.resolve
  let given ← r.given.add flag value
  return { r with given }

def awaits (r : ArgumentReader) : Bool :=
  match r.pending with
  | some (_, none) => !r.trailing
  | _ => false

/-- An option that takes a value, with the value if it is attached. -/
def withValue (r : ArgumentReader) (flag : Flag) (attached : Option String) :
    Except UsageError ArgumentReader :=
  match attached with
  | some value => r.react flag value
  | none => r.resolve.map fun r => { r with pending := some (flag, none) }

def long (names : FlagNames) (r : ArgumentReader) (argument : List Char) :
    Except UsageError ArgumentReader :=
  let (name, attached) := match Text.splitFirst? '=' argument with
    | some (name, value) => (String.ofList name, some (String.ofList value))
    | none => (String.ofList argument, none)
  match flagOf? names name with
  | none => .error .unknownArgument
  | some flag =>
    if flag.takesValue then r.withValue flag attached
    else if attached.isSome then .error .unexpectedValue
    else r.react flag ""

/-- Letters after one dash; what follows a letter that takes a value is its value. -/
def letters (names : FlagNames) (r : ArgumentReader) : List Char →
    Except UsageError ArgumentReader
  | [] => .ok r
  | c :: rest =>
    match letterOf? names c with
    | none => .error .unknownArgument
    | some flag =>
      if flag.takesValue then
        r.withValue flag (match rest with
          | [] => none
          | '=' :: value => some (String.ofList value)
          | value => some (String.ofList value))
      else
        match r.react flag "" with
        | .ok r => letters names r rest
        | .error e => .error e

/-- An option, or nothing if the argument is none. -/
def option? (names : FlagNames) (r : ArgumentReader) (argument : String) :
    Option (Except UsageError ArgumentReader) :=
  if r.trailing then none
  else
    match argument.toList with
    | ['-', '-'] => some (.ok { r with trailing := true })
    | '-' :: '-' :: rest => some (r.long names rest)
    | ['-'] => none
    | '-' :: rest => some (r.letters names rest)
    | _ => none

def takeValue (r : ArgumentReader) (value : String) : ArgumentReader :=
  { r with pending := r.pending.map fun p => (p.1, some value) }

end ArgumentReader

def hasPositional : FlagNames → Bool
  | names => (flagOf? names "param").isSome

def readArguments (names : FlagNames) (r : ArgumentReader) :
    List String → Except UsageError Given
  | [] => r.resolve.map ArgumentReader.given
  | a :: rest =>
    match r.option? names a with
    | some (.ok r) => readArguments names r rest
    | some (.error e) => .error e
    | none =>
      if r.awaits then readArguments names (r.takeValue a) rest
      else if hasPositional names && r.given.positional.isNone then
        match r.resolve with
        | .ok r =>
          readArguments names { r with given := { r.given with positional := some a } } rest
        | .error e => .error e
      else .error .unknownArgument

def targetOf (g : Given) : Except UsageError Target :=
  match g.positional with
  | some run => .ok { g.target with run }
  | none => .error .missingArgument

def readCommand (name : String) (arguments : List String) :
    Except UsageError (Command × Bool) :=
  match name with
  | "run" => do
    let g ← readArguments runFlags {} arguments
    return (.run (← targetOf g) g.options, g.quiet)
  | "expand" => do
    let g ← readArguments targetFlags {} arguments
    return (.expand (← targetOf g), g.quiet)
  | _ => do
    let g ← readArguments commonFlags {} arguments
    return (.list, g.quiet)

def isCommand (name : String) : Bool :=
  name ∈ ["run", "expand", "list"]

def helpError : List String → UsageError
  | [] => .help
  | [name] => if isCommand name || name = "help" then .help else .invalidSubcommand
  | name :: _ => if name = "help" then .help else .invalidSubcommand

/-- The options before the command, then the command. A value before the command is looked at when
the command has been read. -/
def readProgram (r : ArgumentReader) : List String → Except UsageError CommandLine
  | [] => do
    let r ← r.resolve
    if r.given.seen.isEmpty then .error .helpForNothing else .error .missingSubcommand
  | a :: rest =>
    if !r.trailing && !r.awaits && isCommand a then do
      let (command, quiet) ← readCommand a rest
      let r ← r.resolve
      return { project := r.given.project, quiet := r.given.quiet || quiet, command }
    else if !r.trailing && !r.awaits && a = "help" then .error (helpError rest)
    else
      match r.option? programFlags a with
      | some (.ok r) => readProgram r rest
      | some (.error e) => .error e
      | none =>
        if r.awaits then readProgram (r.takeValue a) rest
        else if r.trailing && (isCommand a || a = "help") then .error .unknownArgument
        else .error .invalidSubcommand

def parseCommandLine (arguments : List String) : Except UsageError CommandLine :=
  readProgram {} arguments

end Experiment.Cli
