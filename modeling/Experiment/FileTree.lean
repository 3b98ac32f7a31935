import Experiment.Error

/-!
# A tree of files

Files and directories by their place under the root, without links. A path is followed piece by
piece from the root or from the current directory; every piece but the last has to be a directory.
-/

namespace Experiment

inductive Entry where
  | directory
  | file (bytes : ByteArray)

abbrev Location := List String

structure FileTree where
  current : Location := []
  entries : List (Location × Entry) := []

namespace FileTree

def find (at_ : Location) : List (Location × Entry) → Option Entry
  | [] => none
  | (l, e) :: rest => if l = at_ then some e else find at_ rest

def entry? (t : FileTree) (l : Location) : Option Entry :=
  if l = [] then some .directory else find l t.entries

def replaceIn (l : Location) (e : Entry) : List (Location × Entry) → List (Location × Entry)
  | [] => [(l, e)]
  | (m, f) :: rest => if m = l then (m, e) :: rest else (m, f) :: replaceIn l e rest

def put (t : FileTree) (l : Location) (e : Entry) : FileTree :=
  { t with entries := replaceIn l e t.entries }

def isDirectoryAt (t : FileTree) (l : Location) : Bool :=
  match t.entry? l with
  | some .directory => true
  | _ => false

def steps (p : FilePath) : List String :=
  (FilePath.pieces p).filter fun s => s ≠ "" && s ≠ "."

def start (t : FileTree) (p : FilePath) : Location :=
  if FilePath.isAbsolute p then [] else t.current

def step (l : Location) (s : String) : Location :=
  if s = ".." then l.dropLast else l ++ [s]

def isTooLong (s : String) : Bool :=
  255 < s.utf8ByteSize

def walk (t : FileTree) : Location → List String → Except OsError Location
  | l, [] => .ok l
  | l, s :: rest =>
    match t.entry? l with
    | none => .error .notFound
    | some (.file _) => .error .notDirectory
    | some .directory => if isTooLong s then .error .nameTooLong else walk t (step l s) rest

/-- Paths that end in a slash or a dot name directories only. -/
def namesDirectory (p : FilePath) : Bool :=
  match (FilePath.pieces p).getLast? with
  | some s => s = "" || s = "." || s = ".."
  | none => true

def locate (t : FileTree) (p : FilePath) : Except OsError Location :=
  if p = "" then .error .notFound
  else if p.toList.contains '\x00' then .error .nulByte
  else t.walk (t.start p) (steps p)

def look (t : FileTree) (p : FilePath) : Except OsError Entry :=
  match t.locate p with
  | .error e => .error e
  | .ok l =>
    match t.entry? l with
    | none => .error .notFound
    | some .directory => .ok .directory
    | some (.file b) => if namesDirectory p then .error .notDirectory else .ok (.file b)

def read (t : FileTree) (p : FilePath) : Except OsError ByteArray :=
  match t.look p with
  | .error e => .error e
  | .ok .directory => .error .isDirectory
  | .ok (.file b) => .ok b

def readText (t : FileTree) (p : FilePath) : Except OsError String :=
  match t.read p with
  | .error e => .error e
  | .ok b =>
    match String.fromUTF8? b with
    | some s => .ok s
    | none => .error .notText

/-- Where a file may be written. -/
def writable (t : FileTree) (p : FilePath) : Except OsError Location :=
  match t.locate p with
  | .error e => .error e
  | .ok l =>
    if namesDirectory p || t.isDirectoryAt l then .error .isDirectory else .ok l

def write (t : FileTree) (p : FilePath) (bytes : ByteArray) : Except OsError FileTree :=
  match t.writable p with
  | .error e => .error e
  | .ok l => .ok (t.put l (.file bytes))

def isFile (t : FileTree) (p : FilePath) : Bool :=
  match t.look p with
  | .ok (.file _) => true
  | _ => false

def isDirectory (t : FileTree) (p : FilePath) : Bool :=
  match t.look p with
  | .ok .directory => true
  | _ => false

def exists? (t : FileTree) (p : FilePath) : Bool :=
  match t.look p with
  | .ok _ => true
  | .error _ => false

/-- Directories made on the way stay when a later one cannot be made. -/
def makeAll (t : FileTree) : Location → List String → FileTree × Option OsError
  | _, [] => (t, none)
  | l, s :: rest =>
    let next := step l s
    match t.entry? next with
    | some .directory => makeAll t next rest
    | some (.file _) => (t, some (if rest.isEmpty then .exists else .notDirectory))
    | none =>
      if isTooLong s then (t, some .nameTooLong) else makeAll (t.put next .directory) next rest

def createDirectories (t : FileTree) (p : FilePath) : FileTree × Option OsError :=
  if p.toList.contains '\x00' then (t, some .nulByte)
  else makeAll t (t.start p) (steps p)

/-- The target is emptied before the source is read, so a copy of a file onto itself is empty. -/
def copy (t : FileTree) (source target : FilePath) : Except OsError FileTree :=
  match t.look source with
  | .error e => .error e
  | .ok .directory => .error .notRegular
  | .ok (.file _) =>
    match t.writable target with
    | .error e => .error e
    | .ok l =>
      let emptied := t.put l (.file ByteArray.empty)
      match emptied.read source with
      | .error e => .error e
      | .ok b => .ok (emptied.put l (.file b))

/-- Without a file, or a directory and all that lies in it. -/
def remove (t : FileTree) (l : Location) : FileTree :=
  { t with entries := t.entries.filter fun e => !l.isPrefixOf e.1 }

def move (t : FileTree) (source target : Location) : FileTree :=
  let moved := t.entries.filterMap fun e =>
    if source.isPrefixOf e.1 then some (target ++ e.1.drop source.length, e.2) else none
  { t with entries := ((t.remove source).remove target).entries ++ moved }

def children (t : FileTree) (l : Location) : List (String × Entry) :=
  t.entries.filterMap fun (m, e) =>
    match m.getLast? with
    | some name => if m.dropLast = l then some (name, e) else none
    | none => none

/-- The files under the current directory, by the path from there. -/
def files (t : FileTree) : List (FilePath × ByteArray) :=
  t.entries.filterMap fun (m, e) =>
    match e with
    | .directory => none
    | .file b =>
      if t.current.isPrefixOf m then
        some (Text.joinWith "/" (m.drop t.current.length), b)
      else none

end FileTree

end Experiment
