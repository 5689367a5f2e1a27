import ScriptHost.Host.Module
import ScriptHost.Number.Checked
import ScriptHost.Number.Decimal
/-!
# The module `Math`

Functions of numbers. Those that make sense for whole numbers keep them whole; all others widen
their arguments.
-/

set_option autoImplicit false

namespace ScriptHost.Mathematics

/-- The number that is the argument at an index, widened. -/
def number (args : List Value) (index : Nat) (function : String) : Except String Float :=
  match args[index]?.bind Value.toFloat? with
  | some x => .ok x
  | none => .error s!"{function} expects a number as argument {index + 1}"

/-- The outcome of something that may refuse. -/
def outcome : Except String Value → HostOutcome
  | .ok value => .value value
  | .error message => .failure message

/-- A function of one number. -/
def unary (name : String) (f : Float → Float) (args : List Value) : HostOutcome :=
  outcome do return .float (f (← number args 0 name))

/-- The magnitude of a number. -/
def abs (args : List Value) : HostOutcome :=
  match args.head? with
  | some (.int n) =>
    match Checked.abs n with
    | some m => .value (.int m)
    | none => .failure "Integer overflow"
  | _ => unary "abs" Float.abs args

/-- A power. -/
def pow (args : List Value) : HostOutcome :=
  outcome do
    let base ← number args 0 "pow"
    let exponent ← number args 1 "pow"
    return .float (base.pow exponent)

/-- The lesser of two numbers, the first one unless the second is less. -/
def least (args : List Value) : HostOutcome :=
  match args with
  | .int a :: .int b :: _ => .value (.int (if b.toInt < a.toInt then b else a))
  | _ => outcome do
    let a ← number args 0 "min"
    let b ← number args 1 "min"
    return .float (if b < a then b else a)

/-- The greater of two numbers, the first one unless the second is greater. -/
def greatest (args : List Value) : HostOutcome :=
  match args with
  | .int a :: .int b :: _ => .value (.int (if a.toInt < b.toInt then b else a))
  | _ => outcome do
    let a ← number args 0 "max"
    let b ← number args 1 "max"
    return .float (if a < b then b else a)

/-- What breaks a `clamp`: a bound that is no number. -/
def clampPanic (low high : Float) : String :=
  s!"min > max, or either was NaN. min = {exactFloatText low}, max = {exactFloatText high}"

/-- The complaint about bounds that are in the wrong order. -/
def clampRefusal : String := "clamp: min is greater than max"

/-- The nearest number between two bounds. -/
def clamp (args : List Value) : HostOutcome :=
  match args with
  | .int v :: .int low :: .int high :: _ =>
    if high.toInt < low.toInt then .failure clampRefusal
    else if high.toInt < v.toInt then .value (.int high)
    else if v.toInt < low.toInt then .value (.int low)
    else .value (.int v)
  | _ =>
    let bounds : Except String (Float × Float × Float) := do
      let v ← number args 0 "clamp"
      let low ← number args 1 "clamp"
      let high ← number args 2 "clamp"
      return (v, low, high)
    match bounds with
    | .error message => .failure message
    | .ok (v, low, high) =>
      if high < low then .failure clampRefusal
      else if low ≤ high then
        .value (.float (if v < low then low else if high < v then high else v))
      else .panic (some (clampPanic low high))

/-- The ratio of a circle to its diameter. -/
def pi : Float := 3.141592653589793

/-- The module. -/
def module {σ : Type} : HostModule σ :=
  ({ name := "Math" } : HostModule σ)
    |>.withPure "sqrt" (.exact 1) (unary "sqrt" Float.sqrt)
    |>.withPure "sin" (.exact 1) (unary "sin" Float.sin)
    |>.withPure "cos" (.exact 1) (unary "cos" Float.cos)
    |>.withPure "tan" (.exact 1) (unary "tan" Float.tan)
    |>.withPure "floor" (.exact 1) (unary "floor" Float.floor)
    |>.withPure "ceil" (.exact 1) (unary "ceil" Float.ceil)
    |>.withPure "round" (.exact 1) (unary "round" Float.round)
    |>.withPure "abs" (.exact 1) abs
    |>.withPure "pow" (.exact 2) pow
    |>.withPure "min" (.exact 2) least
    |>.withPure "max" (.exact 2) greatest
    |>.withPure "clamp" (.exact 3) clamp
    |>.withPure "pi" (.exact 0) fun _ => .value (.float pi)

end ScriptHost.Mathematics
