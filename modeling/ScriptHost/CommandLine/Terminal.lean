import ScriptHost.Disk.Access
/-!
# The terminal

What a program on the command line has beside files: lines of input, and output. `Shell` keeps all
of it in memory.
-/

set_option autoImplicit false

namespace ScriptHost

/-- What reading a line came to. -/
inductive LineRead where
  /-- A line with its line break, which the last one may lack. -/
  | line (text : String)
  | ended
  /-- The line is no text. -/
  | broken
deriving DecidableEq, Repr

/-- Places with input and output. -/
class Terminal (m : Type → Type) where
  readLine : m LineRead
  write : String → m Unit

/-- A command line in memory. -/
structure Shell where
  disk : Disk := {}
  /-- The input that has not been read. -/
  input : List UInt8 := []
  output : String := ""

namespace Shell

/-- Whether a byte is a line break. -/
def isBreak (byte : UInt8) : Bool :=
  byte == 10

/-- The first line of some bytes, and the bytes behind it. -/
def splitLine (bytes : List UInt8) : List UInt8 × List UInt8 :=
  let line := bytes.takeWhile (!isBreak ·)
  match bytes.dropWhile (!isBreak ·) with
  | [] => (line, [])
  | last :: rest => (line ++ [last], rest)

/-- What a line of bytes is read as. -/
def lineRead (line : List UInt8) : LineRead :=
  if line.isEmpty then .ended
  else
    match String.fromUTF8? ⟨line.toArray⟩ with
    | some text => .line text
    | none => .broken

/-- What an action on the disk does to the shell. -/
def onDisk {α : Type} (act : StateM Disk α) : StateM Shell α := fun shell =>
  let (result, disk) := act shell.disk
  (result, { shell with disk })

instance : FileAccess (StateM Shell) where
  readText path := onDisk (FileAccess.readText path)
  listDir path := onDisk (FileAccess.listDir path)
  kind? path := onDisk (FileAccess.kind? path)
  perform action := onDisk (FileAccess.perform action)

instance : Terminal (StateM Shell) where
  readLine := fun shell =>
    let (line, input) := splitLine shell.input
    (lineRead line, { shell with input })
  write text := fun shell => ((), { shell with output := shell.output ++ text })

end Shell

end ScriptHost
