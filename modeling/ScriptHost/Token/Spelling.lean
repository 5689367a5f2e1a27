import ScriptHost.Token.Scan
/-!
# Writing tokens

How a token is written, and what may stand between two tokens. Only the text of a floating point
number is left open, for there are many that read back as the same number.
-/

set_option autoImplicit false

namespace ScriptHost

namespace Scan

/-- How a character is written in a string. -/
def escape : Char → List Char
  | '\n' => ['\\', 'n']
  | '\t' => ['\\', 't']
  | '"' => ['\\', '"']
  | '\\' => ['\\', '\\']
  | c => [c]

/-- The words that are no identifiers. -/
def keywords : List String :=
  ["namespace", "class", "fn", "let", "if", "else", "while", "return", "new", "this", "true", "false",
    "null"]

/-- What may stand between tokens behind a blank: more blanks, block comments that are closed, and
line comments with the line break at their end. -/
inductive Filler : List Char → Prop
  | nothing : Filler []
  | blank {c : Char} {rest : List Char} (hc : isBlank c = true) (h : Filler rest) :
    Filler (c :: rest)
  | block {inner rest : List Char} (hopen : ¬ ['*', '/'] <:+: inner) (h : Filler rest) :
    Filler ('/' :: '*' :: (inner ++ '*' :: '/' :: rest))
  | line {inner rest : List Char} (hline : '\n' ∉ inner) (h : Filler rest) :
    Filler ('/' :: '/' :: (inner ++ '\n' :: rest))

/-- What keeps two tokens apart: a blank, and whatever else does not count. -/
def Gap (cs : List Char) : Prop :=
  ∃ c rest, cs = c :: rest ∧ isBlank c = true ∧ Filler rest

end Scan

/-- Whether a name is one that a script can use: letters, digits and underscores, with no digit in
front, and no keyword. -/
def IsIdentifier (name : String) : Prop :=
  (∃ c cs, name.toList = c :: cs ∧ Scan.isWordStart c = true ∧
    ∀ d ∈ cs, Scan.isWordChar d = true) ∧ name ∉ Scan.keywords

/-- A text of digits, a point and more digits that reads back as a number. -/
def ReadsBack (text : List Char) (value : Float) : Prop :=
  ∃ whole fraction, text = whole ++ '.' :: fraction ∧ whole ≠ [] ∧ fraction ≠ [] ∧
    (∀ c ∈ whole, Scan.isDigit c = true) ∧ (∀ c ∈ fraction, Scan.isDigit c = true) ∧
      (Decimal.ofParts whole fraction).toFloat = value

namespace Token

/-- How a token is written, where `float` writes floating point numbers. -/
def spelling (float : Float → List Char) : Token → List Char
  | .int value => Nat.toDigits 10 value.toInt.toNat
  | .float value => float value
  | .str text => '"' :: (text.toList.flatMap Scan.escape ++ ['"'])
  | .ident name => name.toList
  | .kwTrue => "true".toList
  | .kwFalse => "false".toList
  | .kwNull => "null".toList
  | .kwNamespace => "namespace".toList
  | .kwClass => "class".toList
  | .kwFn => "fn".toList
  | .kwLet => "let".toList
  | .kwIf => "if".toList
  | .kwElse => "else".toList
  | .kwWhile => "while".toList
  | .kwReturn => "return".toList
  | .kwNew => "new".toList
  | .kwThis => "this".toList
  | .lparen => ['(']
  | .rparen => [')']
  | .lbrace => ['{']
  | .rbrace => ['}']
  | .comma => [',']
  | .dot => ['.']
  | .semicolon => [';']
  | .plus => ['+']
  | .minus => ['-']
  | .star => ['*']
  | .slash => ['/']
  | .percent => ['%']
  | .lt => ['<']
  | .gt => ['>']
  | .le => ['<', '=']
  | .ge => ['>', '=']
  | .eqEq => ['=', '=']
  | .ne => ['!', '=']
  | .and => ['&', '&']
  | .or => ['|', '|']
  | .bang => ['!']
  | .eq => ['=']
  | .eof => []

/-- Whether a token can be written so that it reads back: whole numbers have no sign, names are
identifiers, and the text of a floating point number must read back as it. The end of a text cannot be
written. -/
def Printable (float : Float → List Char) : Token → Prop
  | .int value => 0 ≤ value.toInt
  | .float value => ReadsBack (float value) value
  | .ident name => IsIdentifier name
  | .eof => False
  | _ => True

end Token

/-- Tokens, each with what stands behind it, behind some characters in front. -/
def layOut (float : Float → List Char) (front : List Char) (tokens : List (Token × List Char)) :
    String :=
  String.ofList (front ++ tokens.flatMap fun (token, gap) => token.spelling float ++ gap)

/-- What stands behind tokens keeps them apart. Nothing needs to stand behind the last one. -/
def Spaced : List (Token × List Char) → Prop
  | [] => True
  | [(_, gap)] => gap = [] ∨ Scan.Gap gap
  | (_, gap) :: rest => Scan.Gap gap ∧ Spaced rest

end ScriptHost
