import ScriptHost.CommandLine.Program
/-!
# Running on a machine

The program on the files, the input and the output of the machine it runs on.
-/

set_option autoImplicit false

namespace ScriptHost.Machinery

/-- The failure behind an error of the system. -/
def diskError (e : IO.Error) : DiskError :=
  match e with
  | .noFileOrDirectory .. => .notFound
  | .alreadyExists .. => .alreadyExists
  | .resourceBusy .. => .busy
  | .inappropriateType _ 20 _ => .notDirectory
  | .inappropriateType _ 21 _ => .isDirectory
  | e => .other (toString e)

/-- An action with its failure as a value. -/
def attempt {α : Type} (act : IO α) : IO (Except DiskError α) := do
  try
    return .ok (← act)
  catch e => return .error (diskError e)

/-- Reads the text in a file. -/
def readText (path : String) : IO (Except DiskError String) := do
  match ← attempt (IO.FS.readBinFile path) with
  | .error e => return .error e
  | .ok bytes =>
    match String.fromUTF8? bytes with
    | some text => return .ok text
    | none => return .error .notText

/-- The names in a directory. -/
def listDir (path : String) : IO (Except DiskError (List String)) := do
  if path.isEmpty then return .error .notFound
  let place := (← IO.currentDir) / path
  attempt do return (← place.readDir).toList.map (·.fileName)

/-- What a path leads to, if to anything. -/
def kind? (path : String) : IO (Option FileKind) := do
  if path.isEmpty then return none
  let place := (← IO.currentDir) / path
  match ← attempt place.metadata with
  | .error _ => return none
  | .ok found =>
    match found.type with
    | .dir => return some .dir
    | .file => return some .file
    | _ => return none

/-- Carries out an operation on files. -/
def perform (action : DiskAction) : IO (Except DiskError Unit) :=
  attempt do
    match action with
    | .createDir path => IO.FS.createDir path
    | .createFile path => discard (IO.FS.Handle.mk path .write)
    | .append path bytes =>
      let handle ← IO.FS.Handle.mk path .append
      handle.write bytes
      handle.flush
    | .sync path =>
      let handle ← IO.FS.Handle.mk path .append
      handle.flush
    | .rename source target => IO.FS.rename source target

instance : FileAccess IO where
  readText := readText
  listDir := listDir
  kind? := kind?
  perform := perform

/-- Reads a line of input. -/
def readLine : IO LineRead := do
  try
    let line ← (← IO.getStdin).getLine
    return if line.isEmpty then .ended else .line line
  catch _ => return .broken

/-- Writes a text to the output. -/
def write (text : String) : IO Unit := do
  let out ← IO.getStdout
  out.putStr text
  out.flush

instance : Terminal IO where
  readLine := readLine
  write := write

/-- More steps than any run takes. -/
def plenty : Nat := Nat.pow 2 62

end ScriptHost.Machinery

/-- Runs the program with the arguments and the environment of the machine. -/
def main (arguments : List String) : IO UInt32 := do
  let environment ← IO.getEnv "SCRIPT_LOADER_CONFIG_DIR"
  match ← ScriptHost.CommandLine.run ScriptHost.Machinery.plenty arguments environment with
  | some code => return code.toUInt32
  | none => return 1
