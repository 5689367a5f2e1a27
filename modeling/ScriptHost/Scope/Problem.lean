import ScriptHost.Source.Diagnostic
/-!
# What can be wrong with names

Errors and warnings of the pass that finds out what the names of a unit stand for.
-/

set_option autoImplicit false

namespace ScriptHost

/-- What can be wrong with the names of a unit. -/
inductive ScopeError where
  | functionRedeclared (name : String)
  | fieldRedeclared (className field : String)
  | memberRedeclared (className member : String)
  | typeRedeclared (name : String)
  | globalRedeclared (name : String)
  | localRedeclared (name : String)
  | undeclaredGlobal (name : String)
  | tooManyLocals
  | statementInNamespace
  | returnOutsideFunction
  | thisOutsideMethod
  | notAssignable
  | unknownName (name : String)
  | unknownType (name : String)
  | unknownField (className field : String)
  | unknownMethod (className method : String)
  | unknownHostFunction (module function : String)
  | moduleNotAllowed (module : String)
  | moduleUnloaded (module : String)
  | moduleAsValue (module : String)
  | variableCalled (name : String)
  /-- A call with a wrong number of arguments; `takes` is the right one in words. -/
  | argumentCount (name takes : String) (given : Nat)
  | noConstructor (name : String) (given : Nat)
deriving DecidableEq, Repr

/-- The text of an error. -/
def ScopeError.message : ScopeError → String
  | .functionRedeclared name => s!"A function named '{name}' is already declared"
  | .fieldRedeclared c field => s!"'{c}' already contains a field named '{field}'"
  | .memberRedeclared c member => s!"'{c}' already contains a member named '{member}'"
  | .typeRedeclared name => s!"A type named '{name}' is already declared"
  | .globalRedeclared name => s!"A global variable named '{name}' is already declared"
  | .localRedeclared name =>
    s!"A local variable named '{name}' is already defined in this scope"
  | .undeclaredGlobal name => s!"Global '{name}' was not declared"
  | .tooManyLocals => "Too many local variables (max 65535)"
  | .statementInNamespace => "Statements are not allowed directly inside a namespace"
  | .returnOutsideFunction => "A return statement is only valid inside a function"
  | .thisOutsideMethod => "Keyword 'this' is not valid outside a method"
  | .notAssignable => "The left-hand side of an assignment must be a variable or field"
  | .unknownName name => s!"The name '{name}' does not exist in the current context"
  | .unknownType name => s!"The type or namespace name '{name}' could not be found"
  | .unknownField c field => s!"'{c}' does not contain a field named '{field}'"
  | .unknownMethod c method => s!"'{c}' does not contain a method named '{method}'"
  | .unknownHostFunction module function =>
    s!"Module '{module}' does not contain a function named '{function}'"
  | .moduleNotAllowed module => s!"module '{module}' is loaded but not referenced by this engine"
  | .moduleUnloaded module => s!"module '{module}' is no longer loaded"
  | .moduleAsValue module => s!"'{module}' is a module and cannot be used as a value"
  | .variableCalled name => s!"'{name}' is a variable but is used like a function"
  | .argumentCount name takes given => s!"'{name}' takes {takes} argument(s) but {given} were given"
  | .noConstructor name given =>
    s!"'{name}' does not have a constructor that takes {given} argument(s)"

/-- An error at a place. -/
def ScopeError.placed (e : ScopeError) (span : Span) : Diagnostic :=
  .error .resolve e.message span

/-- What may be worth a second look. -/
inductive ScopeWarning where
  | unusedVariable (name : String)
  | unreachable
deriving DecidableEq, Repr

/-- The text of a warning. -/
def ScopeWarning.message : ScopeWarning → String
  | .unusedVariable name => s!"The variable '{name}' is assigned but its value is never used"
  | .unreachable => "Unreachable code detected"

/-- The least warning level at which a warning is given. -/
def ScopeWarning.level : ScopeWarning → Nat
  | .unusedVariable _ => 2
  | .unreachable => 1

end ScriptHost
