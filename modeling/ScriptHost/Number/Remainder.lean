import ScriptHost.Number.Binary
/-!
# The remainder of a floating point division

What is left of `x` after taking away `y` a whole number of times, the quotient cut off toward
zero. The remainder has the sign of `x` and is exact: it is found on whole mantissas over a common
power of two.
-/

set_option autoImplicit false

namespace ScriptHost

/-- The exact remainder of two finite numbers, the second not zero. -/
def Binary.remainder (a b : Binary) : Binary :=
  let exponent := min a.exponent b.exponent
  let left := a.mantissa * Nat.pow 2 (a.exponent - exponent).toNat
  let right := b.mantissa * Nat.pow 2 (b.exponent - exponent).toNat
  ⟨a.negative, left % right, exponent⟩

/-- The remainder of `x` by `y`. There is none for an infinite `x` or a zero `y`, and a finite `x`
is its own remainder by an infinite `y`. -/
def floatRemainder (x y : Float) : Float :=
  if x.isNaN || y.isNaN || x.isInf || y == 0 then 0.0 / 0.0
  else if y.isInf then x
  else (Binary.remainder (Binary.ofFloat x) (Binary.ofFloat y)).toFloat

end ScriptHost
