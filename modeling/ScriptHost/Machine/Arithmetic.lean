import ScriptHost.Machine.Fault
import ScriptHost.Number.Checked
import ScriptHost.Number.Remainder
/-!
# Operators on values

Two whole numbers give a whole number or a fault, never a number that has wrapped around. Where one
of two numbers is a floating point number the other is widened. A sum with a string in it joins the
texts of its operands.
-/

set_option autoImplicit false

namespace ScriptHost

/-- The operators that compute a number. -/
inductive ArithOp where
  | add
  | sub
  | mul
  | div
  | mod
deriving DecidableEq, Repr, Inhabited

/-- How an operator is written. -/
def ArithOp.symbol : ArithOp → String
  | .add => "+"
  | .sub => "-"
  | .mul => "*"
  | .div => "/"
  | .mod => "%"

/-- The operators that ask for an order. -/
inductive OrderOp where
  | lt
  | gt
  | le
  | ge
deriving DecidableEq, Repr, Inhabited

/-- How an operator is written. -/
def OrderOp.symbol : OrderOp → String
  | .lt => "<"
  | .gt => ">"
  | .le => "<="
  | .ge => ">="

/-- Whether the operator holds of two things in this order. -/
def OrderOp.holds : OrderOp → Ordering → Bool
  | .lt, order => order.isLT
  | .gt, order => order.isGT
  | .le, order => order.isLE
  | .ge, order => order.isGE

namespace Machine

/-- An operator on whole numbers. -/
def intArith (op : ArithOp) (a b : Int64) : Except Fault Int64 :=
  let result :=
    match op with
    | .add => Checked.add a b
    | .sub => Checked.sub a b
    | .mul => Checked.mul a b
    | .div => Checked.div a b
    | .mod => Checked.rem a b
  if (op = .div ∨ op = .mod) ∧ b = 0 then .error .divisionByZero
  else
    match result with
    | some n => .ok n
    | none => .error .integerOverflow

/-- An operator on floating point numbers. -/
def floatArith (op : ArithOp) (a b : Float) : Float :=
  match op with
  | .add => a + b
  | .sub => a - b
  | .mul => a * b
  | .div => a / b
  | .mod => floatRemainder a b

/-- An operator on numbers, at least one of which is not whole. -/
def wideArith (op : ArithOp) (a b : Value) : Except Fault Value :=
  match a.toFloat?, b.toFloat? with
  | some x, some y => .ok (.float (floatArith op x y))
  | _, _ => .error (.badOperands op.symbol a.typeName b.typeName)

/-- An operator on values. -/
def arith (op : ArithOp) (a b : Value) : Except Fault Value :=
  match op, a, b with
  | op, .int x, .int y => (intArith op x y).map .int
  | .add, .str x, b => .ok (.str (x ++ b.text))
  | .add, a, .str y => .ok (.str (a.text ++ y))
  | op, a, b => wideArith op a b

/-- The order of two numbers. A number that is no number has no place in it. -/
def floatOrder (x y : Float) : Option Ordering :=
  if x < y then some .lt
  else if x == y then some .eq
  else if y < x then some .gt
  else none

/-- The order of two values of a kind that has one. -/
def order (op : OrderOp) (a b : Value) : Except Fault (Option Ordering) :=
  match a, b with
  | .int x, .int y => .ok (some (compare x.toInt y.toInt))
  | .str x, .str y => .ok (some (compare x y))
  | a, b =>
    match a.toFloat?, b.toFloat? with
    | some x, some y => .ok (floatOrder x y)
    | _, _ => .error (.badOperands op.symbol a.typeName b.typeName)

/-- Whether two values stand in an order, as a truth value. -/
def inOrder (op : OrderOp) (a b : Value) : Except Fault Value := do
  match ← order op a b with
  | some ordering => return .bool (op.holds ordering)
  | none => return .bool false

/-- A number with its sign turned round. -/
def negate : Value → Except Fault Value
  | .int a =>
    match Checked.neg a with
    | some n => .ok (.int n)
    | none => .error .integerOverflow
  | .float a => .ok (.float (-a))
  | other => .error (.badOperand "-" other.typeName)

/-- The opposite of a truth value. -/
def invert : Value → Except Fault Value
  | .bool b => .ok (.bool !b)
  | other => .error (.badOperand "!" other.typeName)

/-- The truth of a condition, which must be a truth value. -/
def condition : Value → Except Fault Bool
  | .bool b => .ok b
  | other => .error (.badCondition other.typeName)

end Machine

end ScriptHost
