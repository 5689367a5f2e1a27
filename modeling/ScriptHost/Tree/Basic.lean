import ScriptHost.Source.Span
/-!
# Syntax trees

A source text that obeys the grammar is a list of items: namespaces, classes, functions, and the
statements between them. Every node knows its place in the source.
-/

set_option autoImplicit false

namespace ScriptHost

/-- An operator between two operands. -/
inductive BinaryOp where
  | add
  | sub
  | mul
  | div
  | mod
  | lt
  | gt
  | le
  | ge
  | eq
  | ne
  | and
  | or
deriving DecidableEq, Repr, Inhabited

/-- An operator in front of its operand. -/
inductive UnaryOp where
  | neg
  | not
deriving DecidableEq, Repr, Inhabited

/-- An expression. Parentheses leave no node and no trace in a span. -/
inductive Expr where
  | int (value : Int64) (span : Span)
  | float (value : Float) (span : Span)
  | str (text : String) (span : Span)
  | bool (value : Bool) (span : Span)
  | null (span : Span)
  /-- The object whose member is running. -/
  | this (span : Span)
  /-- A variable, or the head of a dotted name. -/
  | ident (name : String) (span : Span)
  | binary (op : BinaryOp) (left right : Expr) (span : Span)
  | unary (op : UnaryOp) (operand : Expr) (span : Span)
  /-- A call of a bare name. -/
  | call (name : String) (args : List Expr) (span : Span)
  /-- A call behind a dot: of a method, of a host function, or of a function in a namespace. -/
  | methodCall (object : Expr) (method : String) (args : List Expr) (span : Span)
  | field (object : Expr) (name : String) (span : Span)
  | create (path : List String) (args : List Expr) (span : Span)
deriving Inhabited

namespace Expr

/-- The place of an expression. -/
def span : Expr → Span
  | .int _ span | .float _ span | .str _ span | .bool _ span | .null span | .this span
  | .ident _ span | .binary _ _ _ span | .unary _ _ span | .call _ _ span
  | .methodCall _ _ _ span | .field _ _ span | .create _ _ span => span

/-- The names of a chain such as `a.b.c` that consists of names only. -/
def path? : Expr → Option (List String)
  | .ident name _ => some [name]
  | .field object name _ => object.path?.map (· ++ [name])
  | _ => none

/-- Whether an assignment may have the expression on its left. -/
def isAssignable : Expr → Bool
  | .ident .. | .field .. => true
  | _ => false

end Expr

/-- A statement. -/
inductive Stmt where
  | letVar (name : String) (value : Expr) (span : Span)
  | assign (target value : Expr) (span : Span)
  | ifThen (condition : Expr) (body : List Stmt) (span : Span)
  | ifElse (condition : Expr) (body alternative : List Stmt) (span : Span)
  | loop (condition : Expr) (body : List Stmt) (span : Span)
  | ret (value : Option Expr) (span : Span)
  | block (body : List Stmt) (span : Span)
  | expr (value : Expr)
deriving Inhabited

namespace Stmt

/-- The place of a statement. -/
def span : Stmt → Span
  | .letVar _ _ span | .assign _ _ span | .ifThen _ _ span | .ifElse _ _ _ span
  | .loop _ _ span | .ret _ span | .block _ span => span
  | .expr value => value.span

/-- Whether the statement is a `return`. -/
def isReturn : Stmt → Bool
  | .ret .. => true
  | _ => false

/-- Whether the statement is an expression that stands alone. -/
def isExpr : Stmt → Bool
  | .expr _ => true
  | _ => false

end Stmt

/-- A field of a class and what it starts with. -/
structure FieldDecl where
  name : String
  initial : Option Expr
  span : Span
deriving Inhabited

/-- A function, or a method of a class. -/
structure FunctionDecl where
  name : String
  params : List String
  body : List Stmt
  span : Span
deriving Inhabited

/-- A class. -/
structure ClassDecl where
  name : String
  fields : List FieldDecl
  methods : List FunctionDecl
  span : Span
deriving Inhabited

/-- What stands at the top of a source text or in a namespace. -/
inductive Item where
  | space (path : List String) (items : List Item) (span : Span)
  | classDecl (decl : ClassDecl)
  | function (decl : FunctionDecl)
  | stmt (stmt : Stmt)
deriving Inhabited

end ScriptHost
