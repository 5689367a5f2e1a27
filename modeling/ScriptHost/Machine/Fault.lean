import ScriptHost.Host.Module
/-!
# Faults

What can stop a running script, and how it is told.
-/

set_option autoImplicit false

namespace ScriptHost

/-- The most values on the operand stack of a frame. -/
def maxStack : Nat := 256

/-- The most frames at a time. -/
def maxCallDepth : Nat := 1024

/-- Why a script stopped. -/
inductive Fault where
  | instructionLimit (limit : Nat)
  | stackOverflow
  | stackUnderflow
  | callDepth (callee : String)
  | invalidName (index : Nat)
  | invalidFunction (id : Nat)
  | invalidClass (id : Nat)
  | invalidBinding (id : Nat)
  | divisionByZero
  | integerOverflow
  | badCondition (found : String)
  | badOperand (symbol found : String)
  | badOperands (symbol left right : String)
  | nullCall (method : String)
  | notAnObjectCall (method found : String)
  | unknownMethod (className method : String)
  | nullAccess (field : String)
  | notAnObjectAccess (field found : String)
  | unknownField (className field : String)
  /-- A call with a wrong number of arguments; `takes` is the right one in words. -/
  | argumentCount (name takes : String) (given : Nat)
  | noConstructor (className : String) (given : Nat)
  | moduleUnloaded (module function : String)
  | unknownHostFunction (module function : String)
  | hostFailure (module function message : String)
  | hostPanic (module function : String) (detail : Option String)
deriving DecidableEq, Repr

/-- The text of a fault. -/
def Fault.message : Fault → String
  | .instructionLimit limit => s!"Instruction limit of {limit} exceeded"
  | .stackOverflow => "Operand stack overflow"
  | .stackUnderflow => "Operand stack underflow"
  | .callDepth callee =>
    s!"Call depth exceeded {maxCallDepth} (runaway recursion?) in '{callee}'"
  | .invalidName index => s!"Invalid name constant {index}"
  | .invalidFunction id => s!"Invalid function id {id}"
  | .invalidClass id => s!"Invalid class id {id}"
  | .invalidBinding id => s!"Invalid host binding {id}"
  | .divisionByZero => "Attempted to divide by zero"
  | .integerOverflow => "Integer overflow"
  | .badCondition found => s!"Condition must be a bool, got {found}"
  | .badOperand symbol found =>
    s!"Operator '{symbol}' cannot be applied to an operand of type {found}"
  | .badOperands symbol left right =>
    s!"Operator '{symbol}' cannot be applied to operands of type {left} and {right}"
  | .nullCall method =>
    s!"Object reference not set to an instance of an object (calling '{method}')"
  | .notAnObjectCall method found => s!"Cannot call method '{method}' on a value of type {found}"
  | .unknownMethod c method => s!"'{c}' does not contain a method named '{method}'"
  | .nullAccess field =>
    s!"Object reference not set to an instance of an object (accessing '{field}')"
  | .notAnObjectAccess field found => s!"Cannot access field '{field}' on a value of type {found}"
  | .unknownField c field => s!"'{c}' does not contain a field named '{field}'"
  | .argumentCount name takes given => s!"'{name}' takes {takes} argument(s) but {given} were given"
  | .noConstructor c given => s!"'{c}' does not have a constructor that takes {given} argument(s)"
  | .moduleUnloaded module function =>
    s!"module '{module}' has been unloaded (calling '{module}.{function}')"
  | .unknownHostFunction module function =>
    s!"Module '{module}' does not contain a function named '{function}'"
  | .hostFailure module function message => s!"{module}.{function}: {message}"
  | .hostPanic module function detail =>
    s!"host function '{module}.{function}' panicked: " ++ detail.getD "unknown panic"

/-- A fault with the names of the frames that were active, the innermost first. -/
structure RuntimeError where
  fault : Fault
  trace : List String
deriving DecidableEq, Repr

/-- The fault and its trace, one line each. -/
def RuntimeError.text (e : RuntimeError) : String :=
  e.trace.foldl (fun text frame => text ++ "\n   at " ++ frame) e.fault.message

end ScriptHost
