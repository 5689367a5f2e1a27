/-!
# Paths

A path is a text. Its parts are what stands between the slashes: `Path.parts` drops empty parts and
parts that lead nowhere, so paths with the same parts differ in spelling only.
-/

set_option autoImplicit false

namespace ScriptHost

/-- A part of a path. -/
inductive PathPart where
  /-- The slash in front of an absolute path. -/
  | root
  /-- The single point in front of a relative path. -/
  | here
  /-- Two points. -/
  | up
  | name (text : String)
deriving DecidableEq, Repr, Inhabited

/-- The text of a part. -/
def PathPart.text : PathPart → String
  | .root => "/"
  | .here => "."
  | .up => ".."
  | .name text => text

namespace Path

/-- What stands between the slashes of a path. -/
def pieces (path : String) : List String :=
  path.splitOn "/"

/-- Whether a path starts at the root. -/
def isAbsolute (path : String) : Bool :=
  path.toList.head? == some '/'

/-- Whether a path ends with a slash. -/
def endsOpen (path : String) : Bool :=
  path.toList.getLast? == some '/'

/-- The part that a piece stands for, if it leads anywhere. -/
def part? (piece : String) : Option PathPart :=
  match piece with
  | "" => none
  | "." => none
  | ".." => some .up
  | text => some (.name text)

/-- The parts of a path. A point is kept only where a relative path begins with it. -/
def parts (path : String) : List PathPart :=
  let lead :=
    if isAbsolute path then [.root]
    else if (pieces path).head? == some "." then [.here]
    else []
  lead ++ (pieces path).filterMap part?

/-- A path with another behind it. An absolute path stands alone. -/
def join (path next : String) : String :=
  if isAbsolute next then next
  else if path.isEmpty || endsOpen path then path ++ next
  else path ++ "/" ++ next

/-- The text of a path with these parts. -/
def ofParts (parts : List PathPart) : String :=
  parts.foldl (fun path part => join path part.text) ""

/-- The name that a path ends with. -/
def fileName? (path : String) : Option String :=
  match (parts path).getLast? with
  | some (.name text) => some text
  | _ => none

/-- The path without its last part, if it has one that can be left out. -/
def parent? (path : String) : Option String :=
  match (parts path).getLast? with
  | none => none
  | some .root => none
  | some _ => some (ofParts (parts path).dropLast)

/-- The path with another name at its end. A path that ends with no name gets one. -/
def withFileName (path name : String) : String :=
  match fileName? path with
  | some _ => join (ofParts (parts path).dropLast) name
  | none => join path name

/-- What a file name has behind its last point, unless the point is its first character. -/
def extension? (name : String) : Option String :=
  match (name.splitOn ".").reverse with
  | last :: before =>
    if before.isEmpty || before == [""] || name == ".." then none else some last
  | [] => none

/-- The paths above the one with these parts, nearest first and told from its end. -/
def above : List PathPart → List String
  | [] => []
  | _ :: rest => if rest.isEmpty then [] else ofParts rest.reverse :: above rest

/-- A path and the paths above it, the nearest first. -/
def ancestors (path : String) : List String :=
  if path.isEmpty then [] else path :: above (parts path).reverse

end Path

end ScriptHost
