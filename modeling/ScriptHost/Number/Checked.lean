/-!
# Whole number arithmetic with a range check

Whole numbers have 64 bits. Each operation computes the exact result and hands it back only if
there is a 64-bit number for it, so nothing wraps around.
-/

set_option autoImplicit false

namespace ScriptHost.Checked

/-- Whether a 64-bit number has this value. -/
def fits (n : Int) : Bool :=
  decide (Int64.minValue.toInt ≤ n) && decide (n ≤ Int64.maxValue.toInt)

/-- The 64-bit number with this value. -/
def ofInt? (n : Int) : Option Int64 :=
  if fits n then some (Int64.ofInt n) else none

/-- The exact sum. -/
def add (a b : Int64) : Option Int64 :=
  ofInt? (a.toInt + b.toInt)

/-- The exact difference. -/
def sub (a b : Int64) : Option Int64 :=
  ofInt? (a.toInt - b.toInt)

/-- The exact product. -/
def mul (a b : Int64) : Option Int64 :=
  ofInt? (a.toInt * b.toInt)

/-- The quotient, cut off toward zero. There is none by zero. -/
def div (a b : Int64) : Option Int64 :=
  if b.toInt = 0 then none else ofInt? (a.toInt.tdiv b.toInt)

/-- The remainder, with the sign of the dividend. There is none by zero, nor where the quotient
does not fit. -/
def rem (a b : Int64) : Option Int64 :=
  if b.toInt = 0 || !fits (a.toInt.tdiv b.toInt) then none else ofInt? (a.toInt.tmod b.toInt)

/-- The number with its sign turned round. -/
def neg (a : Int64) : Option Int64 :=
  ofInt? (-a.toInt)

/-- The magnitude. -/
def abs (a : Int64) : Option Int64 :=
  ofInt? a.toInt.natAbs

end ScriptHost.Checked
