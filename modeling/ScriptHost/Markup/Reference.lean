import ScriptHost.Markup.Event
/-!
# References in values

A value may hold references, from an ampersand to a semicolon: to a character by its number, or by
one of five names. `dereference` puts the characters in their places.
-/

set_option autoImplicit false

namespace ScriptHost

/-- What can be wrong with the number in a reference. -/
inductive NumberProblem where
  | unexpectedSign
  | empty
  | invalidDigit
  | tooLarge
  | zero
  /-- No character has the number. -/
  | noCharacter (number : Nat)
deriving DecidableEq, Repr

/-- The text of a problem with a number. -/
def NumberProblem.message : NumberProblem → String
  | .unexpectedSign => "unexpected number sign"
  | .empty => "cannot parse integer from empty string"
  | .invalidDigit => "invalid digit found in string"
  | .tooLarge => "number too large to fit in target type"
  | .zero => "0x0 character is not permitted in XML"
  | .noCharacter number => s!"`{number}` is not a valid codepoint"

/-- What can be wrong with a reference. Places are numbers of bytes in the value. -/
inductive ReferenceProblem where
  | unclosed (start stop : Nat)
  | unknownName (start stop : Nat) (name : String)
  | number (problem : NumberProblem)
deriving DecidableEq, Repr

/-- The text of a problem with a reference. -/
def ReferenceProblem.message : ReferenceProblem → String
  | .unclosed start stop =>
    s!"Error while escaping character at range {start}..{stop}: Cannot find ';' after '&'"
  | .unknownName start stop name => s!"at {start}..{stop}: unrecognized entity `{name}`"
  | .number problem => s!"invalid character reference: {problem.message}"

namespace Markup

/-- The value of a digit. -/
def digit? (base : Nat) (c : Char) : Option Nat :=
  let n := c.toNat
  let value :=
    if 48 ≤ n && n ≤ 57 then n - 48
    else if 97 ≤ n && n ≤ 122 then n - 87
    else if 65 ≤ n && n ≤ 90 then n - 55
    else base
  if value < base then some value else none

/-- The number of which digits tell the rest, as long as it has at most 32 bits. -/
def readDigits (base : Nat) (value : Nat) : List Char → Except NumberProblem Nat
  | [] => .ok value
  | c :: rest =>
    match digit? base c with
    | none => .error .invalidDigit
    | some d =>
      if value * base + d < UInt32.size then readDigits base (value * base + d) rest
      else .error .tooLarge

/-- The number that digits tell. -/
def readNumber (base : Nat) (digits : List Char) : Except NumberProblem Nat :=
  match digits with
  | [] => .error .empty
  | '+' :: _ => .error .unexpectedSign
  | '-' :: _ => .error .unexpectedSign
  | _ => readDigits base 0 digits

/-- The character with a number. -/
def characterOf (number : Nat) : Except NumberProblem Char :=
  if number = 0 then .error .zero
  else if h : number.isValidChar then .ok (Char.ofNatAux number h)
  else .error (.noCharacter number)

/-- The character with the number that a reference tells. -/
def numbered (text : List Char) : Except NumberProblem Char := do
  match text with
  | 'x' :: digits => characterOf (← readNumber 16 digits)
  | digits => characterOf (← readNumber 10 digits)

/-- The character with a name. -/
def named? (name : List Char) : Option Char :=
  match String.ofList name with
  | "lt" => some '<'
  | "gt" => some '>'
  | "amp" => some '&'
  | "apos" => some '\''
  | "quot" => some '"'
  | _ => none

/-- The character that a reference stands for, which begins behind the byte `start`. -/
def resolve (start : Nat) (text : List Char) : Except ReferenceProblem Char :=
  match text with
  | '#' :: number =>
    match numbered number with
    | .ok c => .ok c
    | .error problem => .error (.number problem)
  | name =>
    match named? name with
    | some c => .ok c
    | none => .error (.unknownName (start + 1) (start + 1 + byteWidth name) (String.ofList name))

/-- Puts characters in the places of references. `inside` holds the start of the reference that is
being read and its characters in reverse, `done` the text so far in reverse. -/
def dereferenceFrom (total : Nat) :
    Nat → Option (Nat × List Char) → List Char → List Char → Except ReferenceProblem (List Char)
  | _, none, done, [] => .ok done.reverse
  | _, some (start, _), _, [] => .error (.unclosed start total)
  | offset, none, done, c :: rest =>
    if c == '&' then dereferenceFrom total (offset + 1) (some (offset, [])) done rest
    else dereferenceFrom total (offset + c.utf8Size) none (c :: done) rest
  | offset, some (start, name), done, c :: rest =>
    if c == ';' then
      match resolve start name.reverse with
      | .ok found => dereferenceFrom total (offset + 1) none (found :: done) rest
      | .error e => .error e
    else if c == '&' then .error (.unclosed start total)
    else dereferenceFrom total (offset + c.utf8Size) (some (start, c :: name)) done rest

/-- A value with characters in the places of references. -/
def dereference (value : List Char) : Except ReferenceProblem (List Char) :=
  dereferenceFrom (byteWidth value) 0 none [] value

end Markup

end ScriptHost
