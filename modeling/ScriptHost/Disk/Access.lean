import ScriptHost.Disk.Basic
/-!
# Access to files

Programs that read and write files do so through `FileAccess`, so that they run on a disk in memory
as well as on a machine. A failure is a value: what was done before it stays done.
-/

set_option autoImplicit false

namespace ScriptHost

/-- What a path can lead to. -/
inductive FileKind where
  | file
  | dir
deriving DecidableEq, Repr

/-- Places that can be read from and written to by path. -/
class FileAccess (m : Type → Type) where
  readText : String → m (Except DiskError String)
  /-- The names in a directory, in any order. -/
  listDir : String → m (Except DiskError (List String))
  /-- What a path leads to, if to anything. -/
  kind? : String → m (Option FileKind)
  perform : DiskAction → m (Except DiskError Unit)

/-- The kind of a node. -/
def DiskNode.kind : DiskNode → FileKind
  | .file _ => .file
  | .dir => .dir

namespace Disk

/-- What a path leads to, if to anything. -/
def kind? (disk : Disk) (path : String) : Option FileKind :=
  (disk.stat path).toOption.map fun found => found.2.kind

/-- Carries out an operation. If it fails the disk stays as it is. -/
def tryPerform (disk : Disk) (action : DiskAction) : Except DiskError Unit × Disk :=
  match disk.perform action with
  | .ok disk => (.ok (), disk)
  | .error e => (.error e, disk)

instance : FileAccess (StateM Disk) where
  readText path := fun disk => (disk.readText path, disk)
  listDir path := fun disk => (disk.listDir path, disk)
  kind? path := fun disk => (disk.kind? path, disk)
  perform action := fun disk => disk.tryPerform action

end Disk

namespace FileAccess

variable {m : Type → Type} [Monad m] [FileAccess m]

/-- Whether a path leads to a file. -/
def isFile (path : String) : m Bool := do
  return (← kind? path) == some .file

/-- Whether a path leads to a directory. -/
def isDir (path : String) : m Bool := do
  return (← kind? path) == some .dir

/-- Whether a path leads to anything. -/
def leads (path : String) : m Bool := do
  return (← kind? path).isSome

/-- Carries out operations until one fails. -/
def performAll : List DiskAction → m (Except DiskError Unit)
  | [] => return .ok ()
  | action :: rest => do
    match ← perform action with
    | .ok () => performAll rest
    | .error e => return .error e

/-- Makes a directory unless it is there. -/
def ensureDir (path : String) : m (Except DiskError Unit) := do
  match ← perform (.createDir path) with
  | .ok () => return .ok ()
  | .error e => return if ← isDir path then .ok () else .error e

/-- Makes the first of these directories; where it has nothing to stand in, the others first. -/
def createFirst : List String → m (Except DiskError Unit)
  | [] => return .ok ()
  | path :: rest => do
    match ← ensureDir path with
    | .error .notFound =>
      match ← createFirst rest with
      | .ok () => ensureDir path
      | .error e => return .error e
    | outcome => return outcome

/-- Makes a directory and all directories above it that are missing. -/
def createDirs (path : String) : m (Except DiskError Unit) :=
  createFirst (Path.ancestors path)

/-- The path of the file that is written before it takes the place of another. -/
def draftPath (path : String) : String :=
  Path.withFileName path ((Path.fileName? path).getD "" ++ ".tmp")

/-- The operations that put a new file in the place of an old one: readers find the old one until
the new one is complete. -/
def replaceActions (path : String) (bytes : ByteArray) : List DiskAction :=
  [.createFile (draftPath path), .append (draftPath path) bytes, .sync (draftPath path),
    .rename (draftPath path) path]

/-- Puts a new file in the place of an old one. -/
def replaceFile (path : String) (bytes : ByteArray) : m (Except DiskError Unit) :=
  performAll (replaceActions path bytes)

end FileAccess

end ScriptHost
