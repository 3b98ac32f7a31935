import Experiment.FilePath

/-!
# Errors

One type per collaborator, each constructor a cause; `message` puts a cause into words. `RunError`
is what executing a run and logging an artifact can come to. With an `Overflow` the program itself
comes to its end, and nothing is returned.
-/

namespace Experiment

inductive OsError where
  | notFound
  | tooLarge
  | permissionDenied
  | notDirectory
  | isDirectory
  | exists
  | nameTooLong
  | notText
  | nulByte
  | nulArgument
  | notRegular
  | other (text : String)
deriving DecidableEq, Inhabited

namespace OsError

/-- The number that the system gives the cause, if the system itself refused. -/
def number? : OsError → Option Nat
  | .notFound => some 2
  | .tooLarge => some 7
  | .permissionDenied => some 13
  | .exists => some 17
  | .notDirectory => some 20
  | .isDirectory => some 21
  | .nameTooLong => some 36
  | .notText | .nulByte | .nulArgument | .notRegular | .other _ => none

def reason : OsError → String
  | .notFound => "No such file or directory"
  | .tooLarge => "Argument list too long"
  | .permissionDenied => "Permission denied"
  | .exists => "File exists"
  | .notDirectory => "Not a directory"
  | .isDirectory => "Is a directory"
  | .nameTooLong => "File name too long"
  | .notText => "stream did not contain valid UTF-8"
  | .nulByte => "file name contained an unexpected NUL byte"
  | .nulArgument => "nul byte found in provided data"
  | .notRegular => "the source path is neither a regular file nor a symlink to a regular file"
  | .other text => text

def message (e : OsError) : String :=
  match e.number? with
  | some n => e.reason ++ " (os error " ++ toString n ++ ")"
  | none => e.reason

end OsError

inductive StoreError where
  | unsupportedScheme (url : String)
  | notFound (path : String)
  | permissionDenied (path : String)
  | io (path : String) (source : OsError)
  | missingSource (key : String)
deriving DecidableEq, Inhabited

namespace StoreError

def ofOs (path : String) : OsError → StoreError
  | .notFound => .notFound path
  | .permissionDenied => .permissionDenied path
  | e => .io path e

def message : StoreError → String
  | .unsupportedScheme url => "Unsupported store scheme in " ++ url
  | .notFound path => "Object not found: " ++ path
  | .permissionDenied path => "Permission denied for " ++ path
  | .io path source => "I/O error on " ++ path ++ ": " ++ source.message
  | .missingSource key =>
    "Nothing to upload for artifact " ++ key ++ ": no body and no local file"

end StoreError

inductive DatabaseError where
  | connect (url reason : String)
  | write (what path : String) (source : OsError)
  | encode (what source : String)
  | rejected (what reason : String)
deriving DecidableEq, Inhabited

def DatabaseError.message : DatabaseError → String
  | .connect url reason => "Failed to connect to run database at " ++ url ++ ": " ++ reason
  | .write what path source =>
    "Failed to write " ++ what ++ " to " ++ path ++ ": " ++ source.message
  | .encode what source => "Failed to serialize " ++ what ++ ": " ++ source
  | .rejected what reason => "Run database rejected " ++ what ++ ": " ++ reason

inductive RuntimeError where
  | missingHandler (runtime : String)
  | missingCommand (runtime : String)
  | notAvailable (text : String)
  | spawn (command reason : String)
  | execution (text : String)
deriving DecidableEq, Inhabited

def RuntimeError.message : RuntimeError → String
  | .missingHandler runtime => "handler must be provided for " ++ runtime ++ " runtime"
  | .missingCommand runtime => "command must be provided for " ++ runtime ++ " runtime"
  | .notAvailable text => "Runtime not available: " ++ text
  | .spawn command reason => "Failed to spawn command '" ++ command ++ "': " ++ reason
  | .execution text => "Execution failed: " ++ text

/-- What is wrong with a definition before anything is executed. -/
inductive Misconfiguration where
  | unequalLists (name : String) (size expected : Nat)
  | invalidSelector (text : String)
  | unknownRuntime (kind : String)
  | runtimeMismatch (run requested available : String)
  | runtime (cause : RuntimeError)
  | reported (text : String)
deriving DecidableEq, Inhabited

def Misconfiguration.message : Misconfiguration → String
  | .unequalLists name size expected =>
    "list strategy needs equally long hyperparameter lists: '" ++ name ++ "' has "
      ++ toString size ++ " values, expected " ++ toString expected
  | .invalidSelector text =>
    "invalid selector '" ++ text ++ "': expected max.<output> or min.<output>"
  | .unknownRuntime kind => "unknown runtime kind '" ++ kind ++ "'"
  | .runtimeMismatch run requested available =>
    "run '" ++ run ++ "' requests runtime '" ++ requested ++ "' but the executor uses '"
      ++ available ++ "'"
  | .runtime cause => cause.message
  | .reported text => text

/-- Sizes that leave the words of the machine, or what it can allocate. -/
inductive Overflow where
  | product
  | capacity
  | division
deriving DecidableEq, Inhabited

def Overflow.message : Overflow → String
  | .product => "attempt to multiply with overflow"
  | .capacity => "capacity overflow"
  | .division => "attempt to divide by zero"

inductive RunError where
  | configuration (cause : Misconfiguration)
  /-- The text that a runtime returned is no run, for this reason. -/
  | parse (reason : String)
  | storage (cause : StoreError)
  | persistence (cause : DatabaseError)
  | execution (text : String)
  | report (path : FilePath) (source : OsError)
  | overflow (cause : Overflow)
deriving DecidableEq, Inhabited

namespace RunError

def message : RunError → String
  | .configuration cause => "Configuration error: " ++ cause.message
  | .parse reason => "Failed to parse task result: " ++ reason
  | .storage cause => "Storage error: " ++ cause.message
  | .persistence cause => "Persistence error: " ++ cause.message
  | .execution text => "Execution failed: " ++ text
  | .report path source => "Failed to write report to " ++ path ++ ": " ++ source.message
  | .overflow cause => cause.message

/-- What a definition leaves out is wrong before execution, all else is a failure of it. -/
def ofRuntime : RuntimeError → RunError
  | .missingHandler runtime => .configuration (.runtime (.missingHandler runtime))
  | .missingCommand runtime => .configuration (.runtime (.missingCommand runtime))
  | e => .execution e.message

def isConfiguration : RunError → Bool
  | .configuration _ => true
  | _ => false

end RunError

end Experiment
