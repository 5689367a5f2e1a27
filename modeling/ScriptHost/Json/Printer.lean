import ScriptHost.Json.Basic
import ScriptHost.Text.Quoted
/-!
# Printing JSON

Values are printed over several lines, with two blanks for each level.
-/

set_option autoImplicit false

namespace ScriptHost.Json

/-- How a character stands in a string. Only what must be escaped is. -/
def escape (c : Char) : List Char :=
  match c with
  | '"' => ['\\', '"']
  | '\\' => ['\\', '\\']
  | '\x08' => ['\\', 'b']
  | '\x0c' => ['\\', 'f']
  | '\n' => ['\\', 'n']
  | '\r' => ['\\', 'r']
  | '\t' => ['\\', 't']
  | c =>
    if c.toNat < 32 then
      ['\\', 'u', '0', '0', Quoted.hexDigit (c.toNat / 16), Quoted.hexDigit (c.toNat % 16)]
    else [c]

/-- A text as a string. -/
def quote (text : String) : String :=
  "\"" ++ String.ofList (text.toList.flatMap escape) ++ "\""

/-- A line break, and the blanks in front of a line on some level. -/
def lineStart (level : Nat) : String :=
  "\n".pushn ' ' (2 * level)

/-- Parts between an opening and a closing mark, every part on a line of its own. -/
def block (opening closing : String) (level : Nat) (parts : List String) : String :=
  if parts.isEmpty then opening ++ closing
  else
    opening ++ lineStart (level + 1) ++ ("," ++ lineStart (level + 1)).intercalate parts ++
      lineStart level ++ closing

mutual

/-- A value on some level. A string without a text is printed as an empty one. -/
def print (level : Nat) : Json → String
  | null => "null"
  | bool value => if value then "true" else "false"
  | number literal => literal
  | string text => quote (text.getD "")
  | array items => block "[" "]" level (printItems (level + 1) items)
  | object members => block "\x7b" "\x7d" level (printMembers (level + 1) members)

/-- The items of an array. -/
def printItems (level : Nat) : List Json → List String
  | [] => []
  | item :: rest => print level item :: printItems level rest

/-- The members of an object. -/
def printMembers (level : Nat) : List (Option String × Json) → List String
  | [] => []
  | (key, value) :: rest =>
    (quote (key.getD "") ++ ": " ++ print level value) :: printMembers level rest

end

/-- A value over several lines. -/
def pretty (json : Json) : String :=
  print 0 json

end ScriptHost.Json
