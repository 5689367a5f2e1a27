import ScriptHost.Disk.Access
import ScriptHost.Engine.Error
/-!
# Sources

What is built in one go is a row of source files, each known by its origin. They come from the
caller, or from the files that the manifest in a project's directory lists.
-/

set_option autoImplicit false

namespace ScriptHost

/-- A source text and where it comes from. -/
structure SourceFile where
  /-- The name in diagnostics. -/
  origin : String
  text : String
deriving DecidableEq, Repr, Inhabited

/-- The origin of a text that the caller handed over. -/
def inlineOrigin : String := "<inline>"

/-- The source files that are built together. -/
structure SourceUnit where
  files : List SourceFile := []
deriving DecidableEq, Repr, Inhabited

namespace SourceUnit

/-- A single text. -/
def inline (code : String) : SourceUnit :=
  ⟨[⟨inlineOrigin, code⟩]⟩

/-- The texts in order. -/
def texts (sources : SourceUnit) : List String :=
  sources.files.map (·.text)

/-- Where the file with a number comes from. -/
def origin (sources : SourceUnit) (file : Nat) : String :=
  (sources.files[file]?.map (·.origin)).getD inlineOrigin

/-- The text of the file with a number. -/
def text (sources : SourceUnit) (file : Nat) : String :=
  (sources.files[file]?.map (·.text)).getD ""

end SourceUnit

namespace Project

/-- What the name of a manifest ends with, behind a point. -/
def manifestExtension : String := "msproj"

/-- Whether a name is that of a manifest. Letters may be of either case. -/
def namesManifest (name : String) : Bool :=
  match Path.extension? name with
  | some found => found.toLower == manifestExtension
  | none => false

variable {m : Type → Type} [Monad m] [FileAccess m]

/-- The first of these paths that leads to a file. -/
def firstFile : List String → m (Option String)
  | [] => return none
  | path :: rest => do
    if ← FileAccess.isFile path then return some path else firstFile rest

/-- The manifest in a directory. Of several, the one whose name comes first is taken. -/
def findManifest (dir : String) : m (Except EngineError String) := do
  match ← FileAccess.listDir dir with
  | .error .notFound => return .error (.noManifest dir)
  | .error cause => return .error (.unreadable dir cause)
  | .ok names =>
    let sorted := (names.filter namesManifest).mergeSort fun a b => !decide (b < a)
    match ← firstFile (sorted.map (Path.join dir)) with
    | some path => return .ok path
    | none => return .error (.noManifest dir)

/-- Reads a file. -/
def readSource (path : String) : m (Except EngineError String) := do
  match ← FileAccess.readText path with
  | .ok text => return .ok text
  | .error cause => return .error (.unreadable path cause)

/-- Reads the files that a manifest lists. -/
def readListed (dir : String) : List String → m (Except EngineError (List SourceFile))
  | [] => return .ok []
  | listed :: rest => do
    let path := Path.join dir listed
    if ← FileAccess.isFile path then
      match ← readSource path with
      | .error e => return .error e
      | .ok text =>
        match ← readListed dir rest with
        | .error e => return .error e
        | .ok files => return .ok (⟨listed, text⟩ :: files)
    else return .error (.missingSource path)

/-- Reads the sources of the project in a directory. -/
def provide (dir : String) : m (Except EngineError SourceUnit) := do
  match ← findManifest dir with
  | .error e => return .error e
  | .ok path =>
    match ← readSource path with
    | .error e => return .error e
    | .ok text =>
      match Manifest.parse text with
      | .error problem => return .error (.invalidManifest path problem)
      | .ok listed =>
        match ← readListed dir listed with
        | .error e => return .error e
        | .ok files => return .ok ⟨files⟩

end Project

end ScriptHost
