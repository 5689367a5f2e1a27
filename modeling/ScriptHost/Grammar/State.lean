import ScriptHost.Token.Basic
import ScriptHost.Tree.Basic
/-!
# Reading a list of lexemes

The state of a reader of lexemes and the small steps that every rule of the grammar is made of:
look at the next token, take it, insist on a certain one, go one level deeper.

A rule that fails leaves the state where it failed. The reader of items goes on from there, so that
one source text can show several errors.
-/

set_option autoImplicit false

namespace ScriptHost

/-- What can be wrong with the order of the tokens. -/
inductive ParseError where
  | expected (what : String) (found : Token)
  | unexpected (found : Token)
  | strayBrace
  | badClassMember (found : Token)
  | notAssignable
  | tooDeep
deriving DecidableEq

namespace Grammar

/-- The deepest nesting of expressions and blocks. -/
def maxNesting : Nat := 64

end Grammar

/-- The text of a grammar error. -/
def ParseError.message : ParseError → String
  | .expected what found => s!"Expected {what}, got {found.describe}"
  | .unexpected found => s!"Unexpected token: {found.describe}"
  | .strayBrace => "Unexpected '\x7d' with no matching '\x7b'"
  | .badClassMember found => s!"Expected 'let' or 'fn' in class body, got {found.describe}"
  | .notAssignable => "The left-hand side of an assignment must be a variable or field"
  | .tooDeep => s!"Expression or block nested too deeply (limit {Grammar.maxNesting})"

/-- A grammar error at a place. -/
def ParseError.placed (e : ParseError) (span : Span) : Diagnostic :=
  .error .parser e.message span

namespace Grammar

/-- How far a reader has come. -/
structure State where
  /-- The lexemes not yet taken. The last one is never taken. -/
  rest : List Lexeme
  /-- How many lexemes there were at first. -/
  total : Nat
  /-- How many lexemes have been taken. -/
  position : Nat := 0
  /-- The place of the lexeme taken last, or of the first one if none has been. -/
  previous : Span
  /-- How many levels of nesting are open. -/
  depth : Nat := 0
  /-- The errors that reading has recovered from. -/
  errors : Array Diagnostic := #[]

/-- A rule of the grammar: it reads something off the front of the lexemes, or fails. -/
abbrev Rule := EStateM Diagnostic State

namespace State

/-- The next token. -/
def token (s : State) : Token :=
  match s.rest with
  | [] => .eof
  | lexeme :: _ => lexeme.token

/-- The place of the next token. -/
def span (s : State) : Span :=
  match s.rest with
  | [] => .nowhere
  | lexeme :: _ => lexeme.span

/-- Past the next token, unless it is the last one. -/
def advance (s : State) : State :=
  match s.rest with
  | lexeme :: next :: rest =>
    { s with rest := next :: rest, position := s.position + 1, previous := lexeme.span }
  | _ => s

/-- At the start of a list of lexemes. -/
def ofLexemes (lexemes : List Lexeme) : State where
  rest := lexemes
  total := lexemes.length
  previous := (lexemes.head?.map Lexeme.span).getD .nowhere

end State

/-- The next token. -/
def peek : Rule Token := return (← get).token

/-- The place of the next token. -/
def here : Rule Span := return (← get).span

/-- The place of the token taken last. -/
def previous : Rule Span := return (← get).previous

/-- Takes the next token. -/
def advance : Rule Unit := modify State.advance

/-- Fails at the next token. -/
def failHere {α : Type} (e : ParseError) : Rule α := do
  throw (e.placed (← here))

/-- Takes the next token, which must be `token`, and answers its place. -/
def expect (token : Token) (what : String) : Rule Span := do
  let found ← peek
  if found = token then
    let span ← here
    advance
    return span
  else failHere (.expected what found)

/-- Takes an identifier. -/
def identifier : Rule String := do
  match ← peek with
  | .ident name =>
    advance
    return name
  | found => failHere (.expected "identifier" found)

/-- Opens a level of nesting. -/
def descend : Rule Unit := do
  if maxNesting ≤ (← get).depth then failHere .tooDeep
  else modify fun s => { s with depth := s.depth + 1 }

/-- Closes a level of nesting. -/
def State.ascend (s : State) : State :=
  { s with depth := s.depth - 1 }

/-- Reads `rule` one level deeper. The level is closed also when the rule fails. -/
def nested {α : Type} (rule : Rule α) : Rule α := do
  descend
  fun s =>
    match rule s with
    | .ok a s => .ok a s.ascend
    | .error e s => .error e s.ascend

/-- Back to the level of nesting `depth`. -/
def restoreDepth (depth : Nat) : Rule Unit :=
  modify fun s => { s with depth := depth }

/-- Past the semicolons at the front of `rest`, which is what is left in the state. -/
def State.pastSemicolons (s : State) : List Lexeme → State
  | [] => s
  | lexeme :: rest => if lexeme.token = .semicolon then s.advance.pastSemicolons rest else s

/-- Takes semicolons as long as there are any. -/
def skipSemicolons : Rule Unit :=
  modify fun s => s.pastSemicolons s.rest

/-- Takes the semicolon that ends a statement. The end of the block or of the text will do. -/
def terminator : Rule Unit := do
  match ← peek with
  | .semicolon => advance
  | .eof | .rbrace => pure ()
  | found => failHere (.expected "';'" found)

/-- Whether the token ends the list that a closing mark ends. -/
def closes (mark token : Token) : Bool :=
  token == mark || token == .eof

/-- More than the lexemes left, and so a bound on the turns of a loop that takes one in each. -/
def budget : Rule Nat := return (← get).total + 1

end Grammar

end ScriptHost
