import ScriptHost.Text.Hidden
/-!
# Quoted texts

A text in quotation marks, in which what would be hard to see stands as an escape: a backslash and
a letter for the common controls, and a number in braces for other characters that leave no mark.
-/

set_option autoImplicit false

namespace ScriptHost.Quoted

/-- A digit of base sixteen. -/
def hexDigit (n : Nat) : Char :=
  Char.ofNat (if n < 10 then 48 + n else 87 + n)

/-- A number in base sixteen, with at most `fuel` digits. -/
def hexDigits : Nat → Nat → List Char → List Char
  | 0, _, done => done
  | fuel + 1, n, done =>
    if n < 16 then hexDigit n :: done else hexDigits fuel (n / 16) (hexDigit (n % 16) :: done)

/-- The escape that tells a character by its number. -/
def numbered (c : Char) : List Char :=
  ['\\', 'u', '\x7b'] ++ hexDigits 6 c.toNat [] ++ ['\x7d']

/-- How a character stands in a quoted text. Apostrophes are escaped on request. -/
def escape (apostrophes : Bool) (c : Char) : List Char :=
  match c with
  | '\x00' => ['\\', '0']
  | '\t' => ['\\', 't']
  | '\n' => ['\\', 'n']
  | '\r' => ['\\', 'r']
  | '"' => ['\\', '"']
  | '\\' => ['\\', '\\']
  | '\'' => if apostrophes then ['\\', '\''] else ['\'']
  | c => if isHidden c then numbered c else [c]

/-- A text in quotation marks. -/
def quote (apostrophes : Bool) (text : String) : String :=
  "\"" ++ String.ofList (text.toList.flatMap (escape apostrophes)) ++ "\""

end ScriptHost.Quoted
