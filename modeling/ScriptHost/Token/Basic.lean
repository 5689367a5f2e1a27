import ScriptHost.Number.Decimal
import ScriptHost.Source.Diagnostic
/-!
# Tokens

The words of the script language. A `Lexeme` is a token together with its place in the source, and
a source text read to its end is a list of lexemes that closes with `Token.eof`.
-/

set_option autoImplicit false

namespace ScriptHost

/-- A word, a literal or a mark of the script language. -/
inductive Token where
  | int (value : Int64)
  | float (value : Float)
  | str (text : String)
  | ident (name : String)
  | kwTrue
  | kwFalse
  | kwNull
  | kwNamespace
  | kwClass
  | kwFn
  | kwLet
  | kwIf
  | kwElse
  | kwWhile
  | kwReturn
  | kwNew
  | kwThis
  | lparen
  | rparen
  | lbrace
  | rbrace
  | comma
  | dot
  | semicolon
  | plus
  | minus
  | star
  | slash
  | percent
  | lt
  | gt
  | le
  | ge
  | eqEq
  | ne
  | and
  | or
  | bang
  | eq
  | eof
deriving DecidableEq, Inhabited

namespace Token

/-- The name of the kind of token. -/
def kind : Token → String
  | .int _ => "Int"
  | .float _ => "Float"
  | .str _ => "Str"
  | .ident _ => "Ident"
  | .kwTrue => "True"
  | .kwFalse => "False"
  | .kwNull => "Null"
  | .kwNamespace => "Namespace"
  | .kwClass => "Class"
  | .kwFn => "Fn"
  | .kwLet => "Let"
  | .kwIf => "If"
  | .kwElse => "Else"
  | .kwWhile => "While"
  | .kwReturn => "Return"
  | .kwNew => "New"
  | .kwThis => "This"
  | .lparen => "LParen"
  | .rparen => "RParen"
  | .lbrace => "LBrace"
  | .rbrace => "RBrace"
  | .comma => "Comma"
  | .dot => "Dot"
  | .semicolon => "Semicolon"
  | .plus => "Plus"
  | .minus => "Minus"
  | .star => "Star"
  | .slash => "Slash"
  | .percent => "Percent"
  | .lt => "Lt"
  | .gt => "Gt"
  | .le => "Le"
  | .ge => "Ge"
  | .eqEq => "EqEq"
  | .ne => "Ne"
  | .and => "And"
  | .or => "Or"
  | .bang => "Bang"
  | .eq => "Eq"
  | .eof => "Eof"

/-- How a message speaks of a token that it did not expect. -/
def describe : Token → String
  | .eof => "end of file"
  | .ident name => s!"identifier '{name}'"
  | .str _ => "string literal"
  | .int value => s!"'{value.toInt}'"
  | .float value => s!"'{floatText value}'"
  | .lbrace => "'\x7b'"
  | .rbrace => "'\x7d'"
  | .lparen => "'('"
  | .rparen => "')'"
  | .semicolon => "';'"
  | other => other.kind

/-- The token for a word: a keyword, or else an identifier. -/
def ofWord : String → Token
  | "namespace" => .kwNamespace
  | "class" => .kwClass
  | "fn" => .kwFn
  | "let" => .kwLet
  | "if" => .kwIf
  | "else" => .kwElse
  | "while" => .kwWhile
  | "return" => .kwReturn
  | "new" => .kwNew
  | "this" => .kwThis
  | "true" => .kwTrue
  | "false" => .kwFalse
  | "null" => .kwNull
  | word => .ident word

end Token

/-- A token and its place. -/
structure Lexeme where
  token : Token
  span : Span
deriving DecidableEq, Inhabited

/-- What can be wrong with the spelling of a source text. -/
inductive LexError where
  | loneBar
  | loneAmpersand
  | unexpectedChar (c : Char)
  | unterminatedComment
  | unterminatedString
  | unknownEscape (c : Char)
  | integerTooLarge (digits : String)
deriving DecidableEq, Repr

/-- The text of a spelling error. -/
def LexError.message : LexError → String
  | .loneBar => "Expected '||' for logical OR"
  | .loneAmpersand => "Expected '&&' for logical AND"
  | .unexpectedChar c => s!"Unexpected character: '{c}'"
  | .unterminatedComment => "Unterminated block comment"
  | .unterminatedString => "Unterminated string literal"
  | .unknownEscape c => s!"Unknown escape sequence: '\\{c}'"
  | .integerTooLarge digits => s!"Integral constant is too large: {digits}"

/-- A spelling error at a place. -/
def LexError.placed (e : LexError) (span : Span) : Diagnostic :=
  .error .lexer e.message span

end ScriptHost
