import Experiment.World

/-!
# Stores

A target is a place in the files, with or without `file://` before it, or an object in memory after
`memory://`. Other schemes are refused.
-/

namespace Experiment

inductive Backend where
  | file
  | memory
deriving DecidableEq, Inhabited

namespace Store

def schemeMark : List Char := [':', '/', '/']

def resolve (url : String) : Except StoreError (Backend × String) :=
  match Text.afterStart? "memory://".toList url.toList with
  | some path => .ok (.memory, String.ofList path)
  | none =>
    match Text.afterStart? "file://".toList url.toList with
    | some path => .ok (.file, String.ofList path)
    | none =>
      if Text.containsChars schemeMark url.toList then .error (.unsupportedScheme url)
      else .ok (.file, url)

def putObject (path : String) (body : ByteArray) : Action Unit :=
  modify fun w => { w with memory := OrderedMap.insert path body w.memory }

def ensureParent (path : FilePath) : Attempt OsError Unit :=
  match FilePath.parent? path with
  | some parent => if parent = "" then pure () else World.createDirectories parent
  | none => pure ()

def put (backend : Backend) (path : String) (body : ByteArray) : Attempt StoreError Unit :=
  match backend with
  | .memory => putObject path body
  | .file => Attempt.mapError (StoreError.ofOs path) do
      ensureParent path
      World.writeFile path body

/-- A file is not copied onto the same path. -/
def upload (backend : Backend) (path : String) (source : FilePath) : Attempt StoreError Unit :=
  match backend with
  | .memory => do
    let body ← Attempt.mapError (StoreError.ofOs source) (World.readFile source)
    putObject path body
  | .file => Attempt.mapError (StoreError.ofOs path) do
      ensureParent path
      if FilePath.same path source then pure () else World.copyFile source path

def fetch (backend : Backend) (path : String) : Attempt StoreError ByteArray :=
  match backend with
  | .memory => do
    match OrderedMap.find? path (← get).memory with
    | some body => return body
    | none => throw (.notFound path)
  | .file => Attempt.mapError (StoreError.ofOs path) (World.readFile path)

def memoryPaths (w : World) : List String :=
  (OrderedMap.keys w.memory).mergeSort fun a b => decide (a ≤ b)

end Store

end Experiment
