import ScriptHost.Disk.Error
import ScriptHost.Disk.Path
/-!
# A disk

Directories and files, and a directory in which relative paths begin. `Disk.stat` finds what a path
leads to; `Disk.perform` carries out one operation that changes the disk. An operation that fails
changes nothing.
-/

set_option autoImplicit false

namespace ScriptHost

/-- What can stand at a place on a disk. -/
inductive DiskNode where
  | file (bytes : ByteArray)
  | dir
deriving Inhabited

/-- A place on a disk: the names that lead there from the root. -/
abbrev Place := List String

/-- Directories and files. The root is a directory without an entry. -/
structure Disk where
  entries : List (Place × DiskNode) := []
  /-- Where relative paths begin. -/
  current : Place := []
deriving Inhabited

/-- The most bytes in a name. -/
def maxNameBytes : Nat := 255

/-- The most bytes in a path. -/
def maxPathBytes : Nat := 4095

/-- An operation that changes a disk. -/
inductive DiskAction where
  | createDir (path : String)
  /-- Makes an empty file, or empties the one that is there. -/
  | createFile (path : String)
  /-- Writes behind what a file holds. -/
  | append (path : String) (bytes : ByteArray)
  /-- Makes sure that a file is written out. -/
  | sync (path : String)
  /-- Gives a file another path, in place of the file that is there. -/
  | rename (source target : String)
deriving Inhabited

namespace Disk

/-- What stands at a place. -/
def node? (disk : Disk) (place : Place) : Option DiskNode :=
  if place.isEmpty then some .dir else (disk.entries.find? (·.1 == place)).map (·.2)

/-- The disk with nothing at a place. -/
def erase (disk : Disk) (place : Place) : Disk :=
  { disk with entries := disk.entries.filter (·.1 != place) }

/-- The disk with something at a place. -/
def set (disk : Disk) (place : Place) (node : DiskNode) : Disk :=
  { disk with entries := (disk.erase place).entries ++ [(place, node)] }

/-- Makes sure that there is a directory at a place. -/
def expectDir (disk : Disk) (place : Place) : Except DiskError Unit :=
  match disk.node? place with
  | some .dir => .ok ()
  | some (.file _) => .error .notDirectory
  | none => .error .notFound

/-- Goes from a directory along names. -/
def walk (disk : Disk) : Place → List String → Except DiskError Place
  | place, [] => .ok place
  | place, name :: rest => do
    disk.expectDir place
    if name == "." then walk disk place rest
    else if name == ".." then walk disk place.dropLast rest
    else if maxNameBytes < name.utf8ByteSize then .error .nameTooLong
    else walk disk (place ++ [name]) rest

/-- Makes sure that a path can be looked up at all. -/
def checkPath (path : String) : Except DiskError Unit :=
  if path.toList.contains '\x00' then .error .nulInPath
  else if path.isEmpty then .error .notFound
  else if maxPathBytes < path.utf8ByteSize then .error .nameTooLong
  else .ok ()

/-- The names in a path. -/
def names (path : String) : List String :=
  (Path.pieces path).filter (!·.isEmpty)

/-- Where a path begins. -/
def start (disk : Disk) (path : String) : Place :=
  if Path.isAbsolute path then [] else disk.current

/-- What a path leads to. A path that ends with a slash leads to directories only. -/
def stat (disk : Disk) (path : String) : Except DiskError (Place × DiskNode) := do
  checkPath path
  let place ← disk.walk (disk.start path) (names path)
  match disk.node? place with
  | none => .error .notFound
  | some (.file bytes) =>
    if Path.endsOpen path then .error .notDirectory else .ok (place, .file bytes)
  | some .dir => .ok (place, .dir)

/-- What a file holds. -/
def contents (disk : Disk) (path : String) : Except DiskError ByteArray := do
  match (← disk.stat path).2 with
  | .file bytes => .ok bytes
  | .dir => .error .isDirectory

/-- The text in a file. -/
def readText (disk : Disk) (path : String) : Except DiskError String := do
  match String.fromUTF8? (← disk.contents path) with
  | some text => .ok text
  | none => .error .notText

/-- The name of a place right below another. -/
def childName? (dir place : Place) : Option String :=
  if place.dropLast == dir then place.getLast? else none

/-- The names in a directory. -/
def listDir (disk : Disk) (path : String) : Except DiskError (List String) := do
  match ← disk.stat path with
  | (place, .dir) => .ok (disk.entries.filterMap fun entry => childName? place entry.1)
  | (_, .file _) => .error .notDirectory

/-- How the last name in a path ends it. -/
inductive PathEnd where
  /-- The path ends with a name of its own. -/
  | name (text : String)
  /-- The path ends with points, or is the root. -/
  | dots
deriving DecidableEq, Repr

/-- The directory in which the last name of a path stands, and that name. -/
def target (disk : Disk) (path : String) : Except DiskError (Place × PathEnd) := do
  checkPath path
  let found := names path
  let dir ← disk.walk (disk.start path) found.dropLast
  disk.expectDir dir
  match found.getLast? with
  | none => .ok (dir, .dots)
  | some "." => .ok (dir, .dots)
  | some ".." => .ok (dir, .dots)
  | some name => if maxNameBytes < name.utf8ByteSize then .error .nameTooLong else .ok (dir, .name name)

/-- Makes a directory. -/
def createDir (disk : Disk) (path : String) : Except DiskError Disk := do
  match ← disk.target path with
  | (_, .dots) => .error .alreadyExists
  | (dir, .name name) =>
    match disk.node? (dir ++ [name]) with
    | some _ => .error .alreadyExists
    | none => .ok (disk.set (dir ++ [name]) .dir)

/-- Makes an empty file, or empties the one that is there. -/
def createFile (disk : Disk) (path : String) : Except DiskError Disk := do
  match ← disk.target path with
  | (_, .dots) => .error .isDirectory
  | (dir, .name name) =>
    if Path.endsOpen path then .error .isDirectory
    else
      match disk.node? (dir ++ [name]) with
      | some .dir => .error .isDirectory
      | _ => .ok (disk.set (dir ++ [name]) (.file .empty))

/-- Writes behind what a file holds. -/
def append (disk : Disk) (path : String) (bytes : ByteArray) : Except DiskError Disk := do
  match ← disk.stat path with
  | (place, .file held) => .ok (disk.set place (.file (held ++ bytes)))
  | (_, .dir) => .error .isDirectory

/-- Moves the file at one place to another. -/
def move (disk : Disk) (source destination : Place) (bytes : ByteArray) : Disk :=
  if source == destination then disk else (disk.erase source).set destination (.file bytes)

/-- Gives a file another path, in place of the file that is there. -/
def rename (disk : Disk) (source target : String) : Except DiskError Disk := do
  let (sourceDir, sourceEnd) ← disk.target source
  let (targetDir, targetEnd) ← disk.target target
  match sourceEnd, targetEnd with
  | .name sourceName, .name targetName =>
    match disk.node? (sourceDir ++ [sourceName]) with
    | none => .error .notFound
    | some .dir => .error .isDirectory
    | some (.file bytes) =>
      if Path.endsOpen source || Path.endsOpen target then .error .notDirectory
      else
        match disk.node? (targetDir ++ [targetName]) with
        | some .dir => .error .isDirectory
        | _ => .ok (disk.move (sourceDir ++ [sourceName]) (targetDir ++ [targetName]) bytes)
  | _, _ => .error .busy

/-- The disk after an operation. -/
def perform (disk : Disk) : DiskAction → Except DiskError Disk
  | .createDir path => disk.createDir path
  | .createFile path => disk.createFile path
  | .append path bytes => disk.append path bytes
  | .sync path => do
    let _ ← disk.contents path
    return disk
  | .rename source target => disk.rename source target

end Disk

end ScriptHost
