import ScriptHost.Grammar.State
/-!
# The grammar of expressions

Binary operators come in six levels, the loosest first; operators of one level group to the left.
Tighter than these bind the operators in front of an operand, and tighter still dots and calls.

Every operator, dot, call and pair of parentheses opens a level of nesting, so nesting is bounded
by `maxNesting`. The same bound serves as fuel: `operand` calls itself only at a deeper level.
-/

set_option autoImplicit false

namespace ScriptHost.Grammar

/-- The operators of each level. -/
def orOp? : Token → Option BinaryOp
  | .or => some .or
  | _ => none

/-- The operators one level tighter than `||`. -/
def andOp? : Token → Option BinaryOp
  | .and => some .and
  | _ => none

/-- The operators that ask whether two values are equal. -/
def equalityOp? : Token → Option BinaryOp
  | .eqEq => some .eq
  | .ne => some .ne
  | _ => none

/-- The operators that compare by size. -/
def comparisonOp? : Token → Option BinaryOp
  | .lt => some .lt
  | .gt => some .gt
  | .le => some .le
  | .ge => some .ge
  | _ => none

/-- The operators of sums. -/
def sumOp? : Token → Option BinaryOp
  | .plus => some .add
  | .minus => some .sub
  | _ => none

/-- The operators of products. -/
def productOp? : Token → Option BinaryOp
  | .star => some .mul
  | .slash => some .div
  | .percent => some .mod
  | _ => none

/-- The operators in front of an operand. -/
def unaryOp? : Token → Option UnaryOp
  | .minus => some .neg
  | .bang => some .not
  | _ => none

/-- Two operands joined. -/
def join (op : BinaryOp) (left right : Expr) : Expr :=
  .binary op left right (left.span.merge right.span)

/-- Goes on with `left` as long as an operator of the level follows. Each operator opens a level
of nesting, so `maxNesting` bounds their number. -/
def chain (op? : Token → Option BinaryOp) (operand : Rule Expr) : Nat → Expr → Rule Expr
  | 0, _ => failHere .tooDeep
  | fuel + 1, left => do
    match op? (← peek) with
    | none => return left
    | some op =>
      descend
      advance
      let right ← operand
      chain op? operand fuel (join op left right)

/-- The expressions of a level: operands with operators of the level between them. -/
def level (op? : Token → Option BinaryOp) (operand : Rule Expr) : Rule Expr := do
  let left ← operand
  let depth := (← get).depth
  let whole ← chain op? operand (maxNesting + 1) left
  restoreDepth depth
  return whole

/-- The six levels over an operand. -/
def levels (operand : Rule Expr) : Rule Expr :=
  level orOp? <| level andOp? <| level equalityOp? <| level comparisonOp? <| level sumOp? <|
    level productOp? operand

/-- More arguments, each after a comma. -/
def moreArguments (expression : Rule Expr) : Nat → List Expr → Rule (List Expr)
  | 0, found => return found.reverse
  | fuel + 1, found => do
    if (← peek) = .comma then
      advance
      let argument ← expression
      moreArguments expression fuel (argument :: found)
    else return found.reverse

/-- The arguments of a call and the parenthesis that closes them. -/
def arguments (expression : Rule Expr) : Rule (List Expr) := do
  let found ←
    if (← peek) = .rparen then pure []
    else
      let first ← expression
      moreArguments expression (← budget) [first]
  let _ ← expect .rparen "')' after arguments"
  return found

/-- More names, each after a dot. -/
def moreNames : Nat → List String → Rule (List String)
  | 0, found => return found.reverse
  | fuel + 1, found => do
    if (← peek) = .dot then
      advance
      let name ← identifier
      moreNames fuel (name :: found)
    else return found.reverse

/-- One name, or several with dots between them. -/
def dottedName : Rule (List String) := do
  let first ← identifier
  moreNames (← budget) [first]

/-- The creation of an object. -/
def creation (expression : Rule Expr) : Rule Expr := do
  let start ← expect .kwNew "'new'"
  let path ← dottedName
  let _ ← expect .lparen "'(' after type name"
  let args ← arguments expression
  return .create path args (start.merge (← previous))

/-- An expression that is one token. -/
def literal? (span : Span) : Token → Option Expr
  | .int value => some (.int value span)
  | .float value => some (.float value span)
  | .str text => some (.str text span)
  | .kwTrue => some (.bool true span)
  | .kwFalse => some (.bool false span)
  | .kwNull => some (.null span)
  | .kwThis => some (.this span)
  | .ident name => some (.ident name span)
  | _ => none

/-- An expression with no operator, dot or call around it. -/
def primary (expression : Rule Expr) : Rule Expr := do
  let span ← here
  let token ← peek
  match literal? span token with
  | some e =>
    advance
    return e
  | none =>
    if token = .lparen then
      advance
      let inner ← expression
      let _ ← expect .rparen "')'"
      return inner
    else if token = .kwNew then creation expression
    else failHere (.unexpected token)

/-- What follows a dot behind `object`: a field, or a method and its arguments. -/
def member (expression : Rule Expr) (object : Expr) : Rule Expr := do
  descend
  advance
  let span ← here
  let name ← identifier
  if (← peek) = .lparen then
    advance
    let args ← arguments expression
    return .methodCall object name args ((object.span.merge (← previous)).merge span)
  else return .field object name (object.span.merge span)

/-- Goes on with `object` as long as a dot follows, or an argument list behind a bare name. -/
def postfixChain (expression : Rule Expr) : Nat → Expr → Rule Expr
  | 0, _ => failHere .tooDeep
  | fuel + 1, object => do
    match ← peek, object with
    | .dot, _ =>
      let whole ← member expression object
      postfixChain expression fuel whole
    | .lparen, .ident name span =>
      descend
      advance
      let args ← arguments expression
      postfixChain expression fuel (.call name args (span.merge (← previous)))
    | _, _ => return object

/-- A primary expression with its dots and calls. -/
def postfixExpr (expression : Rule Expr) : Rule Expr := do
  let object ← primary expression
  let depth := (← get).depth
  let whole ← postfixChain expression (maxNesting + 1) object
  restoreDepth depth
  return whole

/-- An expression whose operands are read by `operand`. -/
def expressionOver (operand : Rule Expr) : Rule Expr :=
  nested (levels operand)

/-- An operand of a product: operators in front of a postfix expression. The fuel is a bound on the
levels of nesting still free. -/
def operand : Nat → Rule Expr
  | 0 => failHere .tooDeep
  | fuel + 1 => do
    match unaryOp? (← peek) with
    | some op =>
      let start ← here
      advance
      let inner ← nested (operand fuel)
      return .unary op inner (start.merge inner.span)
    | none => postfixExpr (expressionOver (operand fuel))

/-- An expression. -/
def expression : Rule Expr :=
  expressionOver (operand (maxNesting + 1))

end ScriptHost.Grammar
