import ScriptHost.Grammar.Expression
/-!
# The grammar of statements

Each block opens a level of nesting, and so does each `if` behind an `else`.
-/

set_option autoImplicit false

namespace ScriptHost.Grammar

/-- Statements up to the brace that closes their block. -/
def statements (statement : Rule Stmt) : Nat → List Stmt → Rule (List Stmt)
  | 0, found => return found.reverse
  | fuel + 1, found => do
    if closes .rbrace (← peek) then return found.reverse
    else
      let stmt ← statement
      skipSemicolons
      statements statement fuel (stmt :: found)

/-- The inside of a block. -/
def block (statement : Rule Stmt) : Rule (List Stmt) := do
  skipSemicolons
  statements statement (← budget) []

/-- A block in braces, with the place of the closing brace. -/
def braced (block : Rule (List Stmt)) : Rule (List Stmt × Span) := do
  let _ ← expect .lbrace "'\x7b'"
  let body ← nested block
  let stop ← here
  let _ ← expect .rbrace "'\x7d'"
  return (body, stop)

/-- An `if`, with the `else` and the further `if`s behind it. The fuel is a bound on the levels of
nesting still free. -/
def conditional (block : Rule (List Stmt)) : Nat → Rule Stmt
  | 0 => failHere .tooDeep
  | fuel + 1 => do
    let start ← here
    let _ ← expect .kwIf "'if'"
    let condition ← expression
    let (body, stop) ← braced block
    if (← peek) = .kwElse then
      advance
      if (← peek) = .kwIf then
        let other ← nested (conditional block fuel)
        return .ifElse condition body [other] (start.merge other.span)
      else
        let (other, stop) ← braced block
        return .ifElse condition body other (start.merge stop)
    else return .ifThen condition body (start.merge stop)

/-- The declaration of a variable. -/
def variableDecl : Rule Stmt := do
  let start ← here
  advance
  let name ← identifier
  let _ ← expect .eq "'=' in let binding"
  let value ← expression
  terminator
  return .letVar name value (start.merge value.span)

/-- A loop. -/
def loop (block : Rule (List Stmt)) : Rule Stmt := do
  let start ← here
  advance
  let condition ← expression
  let (body, stop) ← braced block
  return .loop condition body (start.merge stop)

/-- A `return`, with a value or without. -/
def returning : Rule Stmt := do
  let start ← here
  advance
  match ← peek with
  | .semicolon | .rbrace | .eof =>
    terminator
    return .ret none start
  | _ =>
    let value ← expression
    terminator
    return .ret (some value) (start.merge value.span)

/-- An expression that stands alone, or an assignment to it. -/
def expressionOrAssignment : Rule Stmt := do
  let target ← expression
  if (← peek) = .eq then
    advance
    if target.isAssignable then
      let value ← expression
      terminator
      return .assign target value (target.span.merge value.span)
    else throw (ParseError.notAssignable.placed target.span)
  else
    terminator
    return .expr target

/-- A statement whose blocks are read by `block`. -/
def statementOver (block : Rule (List Stmt)) : Rule Stmt := do
  match ← peek with
  | .kwLet => variableDecl
  | .kwIf => conditional block (maxNesting + 1)
  | .kwWhile => loop block
  | .kwReturn => returning
  | .lbrace =>
    let start ← here
    let (body, stop) ← braced block
    return .block body (start.merge stop)
  | _ => expressionOrAssignment

/-- A statement. The fuel is a bound on the levels of nesting still free. -/
def statementWithin : Nat → Rule Stmt
  | 0 => failHere .tooDeep
  | fuel + 1 => statementOver (block (statementWithin fuel))

/-- A statement. -/
def statement : Rule Stmt :=
  statementWithin (maxNesting + 1)

end ScriptHost.Grammar
