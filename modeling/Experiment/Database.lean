import Experiment.Json.Reader
import Experiment.Secrets
import Experiment.Store

/-!
# The run database

A database receives connections and keeps runs and summaries of artifacts, or refuses to; every call
that it accepts is put down in the journal. Two are defined here: `directory` keeps its records as
files, `ledger` keeps nothing and refuses what it is told to refuse.

Names of projects, runs and artifacts become single names of files: slashes and backslashes turn
into underscores, and so do the dots of `.` and `..`.
-/

namespace Experiment

inductive Refusal (α : Type) where
  | nothing
  | everything
  | only (items : List α)

def Refusal.covers {α : Type} [DecidableEq α] (r : Refusal α) (a : α) : Bool :=
  match r with
  | .nothing => false
  | .everything => true
  | .only items => decide (a ∈ items)

structure Refusals where
  connections : Bool := false
  /-- By iteration. -/
  runs : Refusal Nat := .nothing
  /-- By key. -/
  artifacts : Refusal String := .nothing

/-- What a database accepts, and what it does to the world, is its own affair; the journal is not. -/
structure Database where
  receive : Secrets → Attempt DatabaseError Unit
  keepRun : Run → String → String → Bool → Attempt DatabaseError Unit
  keepArtifact : String → ArtifactSummary → String → String → Attempt DatabaseError Unit
  quiet_receive : ∀ secrets, (receive secrets).Quiet
  quiet_keepRun : ∀ run uid project commit, (keepRun run uid project commit).Quiet
  quiet_keepArtifact : ∀ key summary tag project, (keepArtifact key summary tag project).Quiet

namespace Database

def sanitizeChar (c : Char) : Char :=
  if c = '/' || c = '\\' then '_' else c

def sanitize (name : String) : String :=
  let flat := String.ofList (name.toList.map sanitizeChar)
  if flat = "." then "_" else if flat = ".." then "__" else flat

def projectDir (project : String) : String :=
  if project = "" then "default" else sanitize project

def runFile (uid : String) (iteration : Nat) : String :=
  sanitize uid ++ "-" ++ toString iteration ++ ".json"

def artifactFile (key tag : String) : String :=
  if tag = "" then sanitize key ++ ".json" else sanitize key ++ "-" ++ sanitize tag ++ ".json"

def runPath (root : FilePath) (project uid : String) (iteration : Nat) : FilePath :=
  FilePath.join (FilePath.join (FilePath.join root "runs") (projectDir project))
    (runFile uid iteration)

def artifactPath (root : FilePath) (project key tag : String) : FilePath :=
  FilePath.join (FilePath.join (FilePath.join root "artifacts") (projectDir project))
    (artifactFile key tag)

def writeRecord (what : String) (path : FilePath) (value : Json) : Attempt DatabaseError Unit :=
  Attempt.mapError (DatabaseError.write what path) do
    match FilePath.parent? path with
    | some parent => World.createDirectories parent
    | none => pure ()
    World.writeFile path value.pretty.toUTF8

/-- A record that is not there or cannot be read is none. -/
def readRun (files : FileTree) (root : FilePath) (project uid : String) (iteration : Nat) :
    Option Run :=
  match files.readText (runPath root project uid iteration) with
  | .ok text => Run.parse? text
  | .error _ => none

theorem keeps_writeRecord (what : String) (path : FilePath) (value : Json) :
    (writeRecord what path value).Keeps World.apartFromFiles := by
  apply Attempt.Keeps.mapError
  cases FilePath.parent? path with
  | none => exact World.keeps_writeFile _ _
  | some parent =>
      exact .bind (World.keeps_createDirectories parent) fun _ => World.keeps_writeFile _ _

def directory (root : FilePath) : Database where
  receive _ :=
    Attempt.mapError (fun e => DatabaseError.connect root e.message) (World.createDirectories root)
  keepRun run uid project _ :=
    writeRecord "run" (runPath root project uid run.metadata.iteration) run.encode
  keepArtifact key summary tag project :=
    writeRecord "artifact" (artifactPath root project key tag) summary.encode
  quiet_receive _ := .mapError _ ((World.keeps_createDirectories root).map World.toJournal)
  quiet_keepRun _ _ _ _ := (keeps_writeRecord _ _ _).map World.toJournal
  quiet_keepArtifact _ _ _ _ := (keeps_writeRecord _ _ _).map World.toJournal

def refuseIf (refused : Bool) (e : DatabaseError) : Attempt DatabaseError Unit :=
  if refused then throw e else pure ()

theorem quiet_refuseIf (refused : Bool) (e : DatabaseError) : (refuseIf refused e).Quiet := by
  cases refused
  · exact .pure ()
  · exact .throw e

def ledger (refusals : Refusals) : Database where
  receive _ := refuseIf refusals.connections (.connect "rec://" "refused")
  keepRun run _ _ _ :=
    refuseIf (refusals.runs.covers run.metadata.iteration) (.rejected "run" "read-only")
  keepArtifact key _ _ _ := refuseIf (refusals.artifacts.covers key) (.rejected "artifact" "read-only")
  quiet_receive _ := quiet_refuseIf _ _
  quiet_keepRun _ _ _ _ := quiet_refuseIf _ _
  quiet_keepArtifact _ _ _ _ := quiet_refuseIf _ _

/-- The call is put down once it has been accepted. -/
def recorded (c : DatabaseCall) (x : Attempt DatabaseError Unit) : Attempt DatabaseError Unit := do
  x
  World.record c

theorem journal_recorded_of_ok {c : DatabaseCall} {x : Attempt DatabaseError Unit} (hx : x.Quiet)
    {w w' : World} (h : (recorded c x).on w = (.ok (), w')) :
    w'.toJournal = w.toJournal.add { ledger := [c] } := by
  obtain ⟨_, v, hv, hc⟩ := Attempt.on_bind_eq_ok.1 h
  have hj := hx w
  rw [hv] at hj
  cases hc
  exact congrArg (Journal.add · _) hj

theorem journal_recorded_of_error {c : DatabaseCall} {x : Attempt DatabaseError Unit} (hx : x.Quiet)
    {w w' : World} {e : DatabaseError} (h : (recorded c x).on w = (.error e, w')) :
    w'.toJournal = w.toJournal := by
  obtain hv | ⟨_, v, _, hc⟩ := Attempt.on_bind_eq_error.1 h
  · have hj := hx w
    rw [hv] at hj
    exact hj
  · cases hc

def connect (db : Database) (secrets : Secrets) : Attempt DatabaseError Unit :=
  recorded (.connect secrets) (db.receive secrets)

def storeRun (db : Database) (run : Run) (uid project : String) (commit : Bool) :
    Attempt DatabaseError Unit :=
  recorded (.run uid project commit run) (db.keepRun run uid project commit)

def storeArtifact (db : Database) (key : String) (summary : ArtifactSummary)
    (tag project : String) : Attempt DatabaseError Unit :=
  recorded (.artifact key tag project summary) (db.keepArtifact key summary tag project)

/-- The database at a url; a blank one means none. -/
def ofUrl? (url : String) : Option Database :=
  if Text.isBlankText url then none
  else
    match Text.afterStart? "file://".toList url.toList with
    | some root => some (.directory (String.ofList root))
    | none => some (.directory url)

end Database

end Experiment
