/-!
# Binary floating point numbers taken apart

A finite floating point number is a sign, a whole mantissa and a power of two. `Binary.ofFloat`
reads these off the bits, `Binary.toFloat` puts them back. Exact questions about floating point
numbers (which decimals round to one, what remains after a division) are answered on this form,
in whole numbers.
-/

set_option autoImplicit false

namespace ScriptHost

/-- The number `± mantissa · 2 ^ exponent`. -/
structure Binary where
  negative : Bool
  mantissa : Nat
  exponent : Int
deriving DecidableEq, Repr

namespace Binary

/-- The least exponent of a floating point number. -/
def minExponent : Int := -1074

/-- The leading bit of the mantissa of most numbers, which their bits leave out. -/
def hiddenBit : Nat := Nat.pow 2 52

/-- The bit that tells the sign. -/
def signBit : Nat := Nat.pow 2 63

/-- The parts of a finite floating point number. The parts of an infinity or of a number that is
no number mean nothing. -/
def ofFloat (x : Float) : Binary :=
  let bits := x.toBits.toNat
  let biased : Nat := bits / hiddenBit % 2048
  let fraction : Nat := bits % hiddenBit
  let negative := decide (signBit ≤ bits)
  if biased = 0 then ⟨negative, fraction, minExponent⟩
  else ⟨negative, fraction + hiddenBit, (biased : Int) - 1075⟩

/-- The floating point number with these parts, for parts that are those of one: a mantissa below
`2 ^ 53` and an exponent in range. -/
def toFloat (b : Binary) : Float :=
  let sign := if b.negative then signBit else 0
  if b.mantissa = 0 then Float.ofBits (UInt64.ofNat sign)
  else
    let shift := 52 - Nat.log2 b.mantissa
    let low := b.exponent - shift
    if minExponent ≤ low then
      let fraction := b.mantissa * Nat.pow 2 shift - hiddenBit
      Float.ofBits (UInt64.ofNat (sign + (low + 1075).toNat * hiddenBit + fraction))
    else
      Float.ofBits (UInt64.ofNat (sign + b.mantissa * Nat.pow 2 (b.exponent - minExponent).toNat))

/-- Whether the number is whole. -/
def isWhole (b : Binary) : Bool :=
  decide (0 ≤ b.exponent) || b.mantissa % Nat.pow 2 (-b.exponent).toNat == 0

end Binary

end ScriptHost
