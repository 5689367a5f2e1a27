import ScriptHost.Markup.Event
/-!
# The attributes of a tag

What stands behind the name of a tag is read as a row of attributes. One that is out of order does
not stop the reader: it is told as such, and reading goes on behind it.
-/

set_option autoImplicit false

namespace ScriptHost

/-- An attribute and its value as it is written. -/
structure Attribute where
  name : List Char
  value : List Char
deriving DecidableEq, Repr, Inhabited

/-- What is wrong with an attribute. -/
inductive AttributeProblem where
  | missingEquals
  | repeated
  | missingValue
  | unquotedValue
  | unclosedValue
deriving DecidableEq, Repr

namespace Markup

/-- What was read, and the characters from which reading goes on. -/
structure AttributeStep where
  result : Except AttributeProblem Attribute
  /-- The names met with so far. -/
  names : List (List Char)
  rest : List Char

/-- The characters from the next blank on. -/
def skipWord (cs : List Char) : List Char :=
  cs.dropWhile (!isSpace ·)

/-- The characters from the next one on that is no blank. -/
def skipSpace (cs : List Char) : List Char :=
  cs.dropWhile isSpace

/-- Reads the value of an attribute behind its equals sign. -/
def readValue (names : List (List Char)) (name cs : List Char) : AttributeStep :=
  match skipSpace cs with
  | [] => ⟨.error .missingValue, names, []⟩
  | c :: rest =>
    if c == '"' || c == '\'' then
      match rest.dropWhile (· != c) with
      | [] => ⟨.error .unclosedValue, names, []⟩
      | _ :: after => ⟨.ok ⟨name, rest.takeWhile (· != c)⟩, names, after⟩
    else ⟨.error .unquotedValue, names, skipWord (c :: rest)⟩

/-- Reads an attribute behind the equals sign. A name that comes again is passed over together with
what stands behind it up to the next blank. -/
def readNamed (names : List (List Char)) (name cs : List Char) : AttributeStep :=
  if names.contains name then ⟨.error .repeated, names, skipWord cs⟩
  else readValue (names ++ [name]) name cs

/-- Reads the attribute that begins with a character. -/
def readAttribute (names : List (List Char)) (first : Char) (cs : List Char) : AttributeStep :=
  let isInner (c : Char) : Bool := c != '=' && !isSpace c
  let name := first :: cs.takeWhile isInner
  match skipSpace (cs.dropWhile isInner) with
  | '=' :: rest => readNamed names name rest
  | rest => ⟨.error .missingEquals, names, rest⟩

/-- Reads attributes to the end, at most `fuel` of them. -/
def attributesFrom : Nat → List (List Char) → List Char → List (Except AttributeProblem Attribute)
  | 0, _, _ => []
  | fuel + 1, names, cs =>
    match skipSpace cs with
    | [] => []
    | c :: rest =>
      let step := readAttribute names c rest
      step.result :: attributesFrom fuel step.names step.rest

end Markup

namespace Tag

/-- What the tag has behind its name. Every attribute takes at least one character. -/
def attributes (tag : Tag) : List (Except AttributeProblem Attribute) :=
  Markup.attributesFrom (tag.rest.length + 1) [] tag.rest

end Tag

/-- A name without what stands in front of its first colon. -/
def localName (name : List Char) : List Char :=
  match name.dropWhile (· != ':') with
  | [] => name
  | _ :: rest => rest

end ScriptHost
