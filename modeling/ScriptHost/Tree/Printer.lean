import ScriptHost.Token.Spelling
import ScriptHost.Tree.Basic
/-!
# Writing syntax trees

A syntax tree as tokens: parentheses only where an operand would otherwise be read as part of
something else, and a semicolon behind every statement that does not end in a brace. The tokens are
written with single blanks between them.
-/

set_option autoImplicit false

namespace ScriptHost

/-- Some lists of tokens with a mark between them. -/
def separated (mark : Token) : List (List Token) → List Token
  | [] => []
  | first :: rest => first ++ rest.flatMap (mark :: ·)

/-- Names with dots between them. -/
def dotted (path : List String) : List Token :=
  separated .dot (path.map fun name => [.ident name])

/-- Tokens in parentheses. -/
def parenthesized (tokens : List Token) : List Token :=
  .lparen :: (tokens ++ [.rparen])

/-- Tokens in braces. -/
def inBraces (tokens : List Token) : List Token :=
  .lbrace :: (tokens ++ [.rbrace])

/-- The token of an operator. -/
def BinaryOp.token : BinaryOp → Token
  | .add => .plus
  | .sub => .minus
  | .mul => .star
  | .div => .slash
  | .mod => .percent
  | .lt => .lt
  | .gt => .gt
  | .le => .le
  | .ge => .ge
  | .eq => .eqEq
  | .ne => .ne
  | .and => .and
  | .or => .or

/-- How loosely an operator binds its operands. -/
def BinaryOp.looseness : BinaryOp → Nat
  | .mul | .div | .mod => 2
  | .add | .sub => 3
  | .lt | .gt | .le | .ge => 4
  | .eq | .ne => 5
  | .and => 6
  | .or => 7

/-- The token of an operator in front of its operand. -/
def UnaryOp.token : UnaryOp → Token
  | .neg => .minus
  | .not => .bang

namespace Expr

/-- How loosely an expression holds together: 0 where no operator is outermost, and 1 where it is one
in front. -/
def looseness : Expr → Nat
  | .unary .. => 1
  | .binary op .. => op.looseness
  | _ => 0

/-- The tokens of an expression, in parentheses if it holds together more loosely than it may. -/
def within (limit : Nat) (e : Expr) (tokens : List Token) : List Token :=
  if e.looseness ≤ limit then tokens else parenthesized tokens

mutual

/-- The tokens of an expression. Operators of one level group to the left, so the right operand must
hold together more tightly. -/
@[simp] def tokens : Expr → List Token
  | .int value _ => [.int value]
  | .float value _ => [.float value]
  | .str text _ => [.str text]
  | .bool value _ => [if value then .kwTrue else .kwFalse]
  | .null _ => [.kwNull]
  | .this _ => [.kwThis]
  | .ident name _ => [.ident name]
  | .binary op left right _ =>
    left.within op.looseness left.tokens ++
      op.token :: right.within (op.looseness - 1) right.tokens
  | .unary op operand _ => op.token :: operand.within 1 operand.tokens
  | .call name args _ => .ident name :: parenthesized (separated .comma (tokensEach args))
  | .methodCall object method args _ =>
    object.within 0 object.tokens ++
      .dot :: .ident method :: parenthesized (separated .comma (tokensEach args))
  | .field object name _ => object.within 0 object.tokens ++ [.dot, .ident name]
  | .create path args _ =>
    .kwNew :: (dotted path ++ parenthesized (separated .comma (tokensEach args)))

/-- The tokens of each of some expressions. -/
def tokensEach : List Expr → List (List Token)
  | [] => []
  | e :: rest => e.tokens :: tokensEach rest

end

end Expr

namespace Stmt

/-- Whether the statement is an `if`. -/
def isIf : Stmt → Bool
  | .ifThen .. | .ifElse .. => true
  | _ => false

/-- Whether some statements are just one `if`, which can stand behind an `else` without braces. -/
def isElseIf : List Stmt → Bool
  | [s] => s.isIf
  | _ => false

mutual

/-- The tokens of a statement. -/
@[simp] def tokens : Stmt → List Token
  | .letVar name value _ => .kwLet :: .ident name :: .eq :: (value.tokens ++ [.semicolon])
  | .assign target value _ => target.tokens ++ .eq :: (value.tokens ++ [.semicolon])
  | .ifThen condition body _ => .kwIf :: (condition.tokens ++ inBraces (tokensAll body))
  | .ifElse condition body alternative _ =>
    .kwIf :: (condition.tokens ++ (inBraces (tokensAll body) ++ .kwElse ::
      if isElseIf alternative then tokensAll alternative else inBraces (tokensAll alternative)))
  | .loop condition body _ => .kwWhile :: (condition.tokens ++ inBraces (tokensAll body))
  | .ret none _ => [.kwReturn, .semicolon]
  | .ret (some value) _ => .kwReturn :: (value.tokens ++ [.semicolon])
  | .block body _ => inBraces (tokensAll body)
  | .expr value => value.tokens ++ [.semicolon]

/-- The tokens of some statements. -/
def tokensAll : List Stmt → List Token
  | [] => []
  | s :: rest => s.tokens ++ tokensAll rest

end

end Stmt

/-- The tokens of a field. -/
def FieldDecl.tokens (f : FieldDecl) : List Token :=
  .kwLet :: .ident f.name ::
    ((f.initial.elim [] fun value => .eq :: value.tokens) ++ [.semicolon])

/-- The tokens of a function. -/
def FunctionDecl.tokens (f : FunctionDecl) : List Token :=
  .kwFn :: .ident f.name ::
    (parenthesized (separated .comma (f.params.map fun name => [.ident name])) ++
      inBraces (Stmt.tokensAll f.body))

/-- The tokens of a class, the fields in front of the methods. -/
def ClassDecl.tokens (c : ClassDecl) : List Token :=
  .kwClass :: .ident c.name ::
    inBraces (c.fields.flatMap FieldDecl.tokens ++ c.methods.flatMap FunctionDecl.tokens)

namespace Item

mutual

/-- The tokens of an item. -/
@[simp] def tokens : Item → List Token
  | .space path items _ => .kwNamespace :: (dotted path ++ inBraces (tokensAll items))
  | .classDecl c => c.tokens
  | .function f => f.tokens
  | .stmt s => s.tokens

/-- The tokens of some items. -/
def tokensAll : List Item → List Token
  | [] => []
  | item :: rest => item.tokens ++ tokensAll rest

end

end Item

/-- Tokens with single blanks between them. -/
def blanksBetween : List Token → List (Token × List Char)
  | [] => []
  | [token] => [(token, [])]
  | token :: rest => (token, [' ']) :: blanksBetween rest

/-- A source text for some items, where `float` writes floating point numbers. -/
def printed (float : Float → List Char) (items : List Item) : String :=
  layOut float [] (blanksBetween (Item.tokensAll items))

/-! ## What can be written -/

section

variable (float : Float → List Char)

namespace Expr

mutual

/-- Whether an expression can be written: whole numbers have no sign, names are identifiers, the text
of a floating point number reads back as it, and no dotted name is empty. -/
def Printable : Expr → Prop
  | .int value _ => 0 ≤ value.toInt
  | .float value _ => ReadsBack (float value) value
  | .str .. | .bool .. | .null .. | .this .. => True
  | .ident name _ => IsIdentifier name
  | .binary _ left right _ => left.Printable ∧ right.Printable
  | .unary _ operand _ => operand.Printable
  | .call name args _ => IsIdentifier name ∧ AllPrintable args
  | .methodCall object method args _ =>
    object.Printable ∧ IsIdentifier method ∧ AllPrintable args
  | .field object name _ => object.Printable ∧ IsIdentifier name
  | .create path args _ => (path ≠ [] ∧ ∀ name ∈ path, IsIdentifier name) ∧ AllPrintable args

/-- Whether some expressions can be written. -/
def AllPrintable : List Expr → Prop
  | [] => True
  | e :: rest => e.Printable ∧ AllPrintable rest

end

end Expr

namespace Stmt

mutual

/-- Whether a statement can be written. Only variables and fields can be assigned to. -/
def Printable : Stmt → Prop
  | .letVar name value _ => IsIdentifier name ∧ value.Printable float
  | .assign target value _ =>
    target.isAssignable = true ∧ target.Printable float ∧ value.Printable float
  | .ifThen condition body _ | .loop condition body _ =>
    condition.Printable float ∧ AllPrintable body
  | .ifElse condition body alternative _ =>
    condition.Printable float ∧ AllPrintable body ∧ AllPrintable alternative
  | .ret value _ => ∀ e ∈ value, e.Printable float
  | .block body _ => AllPrintable body
  | .expr value => value.Printable float

/-- Whether some statements can be written. -/
def AllPrintable : List Stmt → Prop
  | [] => True
  | s :: rest => s.Printable ∧ AllPrintable rest

end

end Stmt

/-- Whether a field can be written. -/
def FieldDecl.Printable (f : FieldDecl) : Prop :=
  IsIdentifier f.name ∧ ∀ e ∈ f.initial, e.Printable float

/-- Whether a function can be written. -/
def FunctionDecl.Printable (f : FunctionDecl) : Prop :=
  IsIdentifier f.name ∧ (∀ name ∈ f.params, IsIdentifier name) ∧ Stmt.AllPrintable float f.body

/-- Whether a class can be written. -/
def ClassDecl.Printable (c : ClassDecl) : Prop :=
  IsIdentifier c.name ∧ (∀ f ∈ c.fields, f.Printable float) ∧ ∀ m ∈ c.methods, m.Printable float

namespace Item

mutual

/-- Whether an item can be written. -/
def Printable : Item → Prop
  | .space path items _ => (path ≠ [] ∧ ∀ name ∈ path, IsIdentifier name) ∧ AllPrintable items
  | .classDecl c => c.Printable float
  | .function f => f.Printable float
  | .stmt s => s.Printable float

/-- Whether some items can be written. -/
def AllPrintable : List Item → Prop
  | [] => True
  | item :: rest => item.Printable ∧ AllPrintable rest

end

end Item

end

end ScriptHost
