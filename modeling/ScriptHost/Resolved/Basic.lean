import ScriptHost.Program.Basic
import ScriptHost.Tree.Basic
/-!
# Resolved trees

Syntax trees in which every name has been replaced by what it stands for: a slot, a number in a
table of the program, or a host function. Places in the source are gone, and so are blocks: a block
is a branch that is always taken.
-/

set_option autoImplicit false

namespace ScriptHost.Resolved

/-- An expression. -/
inductive Expr where
  | const (value : Value)
  | loadLocal (slot : Nat)
  | loadGlobal (id : Nat)
  | loadThis
  | getField (object : Expr) (name : String)
  | binary (op : BinaryOp) (left right : Expr)
  | unary (op : UnaryOp) (operand : Expr)
  | call (function : Nat) (args : List Expr)
  | callMethod (object : Expr) (method : String) (args : List Expr)
  | callHost (module function : String) (args : List Expr)
  | create (classId : Nat) (args : List Expr)
deriving Inhabited

/-- A statement. -/
inductive Stmt where
  | storeLocal (slot : Nat) (value : Expr)
  | storeGlobal (id : Nat) (value : Expr)
  | setField (object : Expr) (name : String) (value : Expr)
  | branch (condition : Expr) (body alternative : List Stmt)
  | loop (condition : Expr) (body : List Stmt)
  | ret (value : Option Expr)
  | expr (value : Expr)
deriving Inhabited

/-- A function, under its qualified name. -/
structure Function where
  name : String
  arity : Nat
  body : List Stmt
  /-- The number of slots that its parameters and variables take. -/
  localCount : Nat
deriving Inhabited

/-- All source texts of a unit. Its functions and classes are numbered from where the tables of the
program end. -/
structure Unit where
  functionBase : Nat
  functions : Array Function
  classBase : Nat
  classes : Array Class
  functionNames : List (String × Nat)
  /-- The global variables that the unit brings in. -/
  globals : List (String × Nat)
  topLevel : List Stmt
  topLevelLocals : Nat
  /-- Whether the top level ends with an expression, whose value is the unit's. -/
  returnsValue : Bool
deriving Inhabited

end ScriptHost.Resolved
