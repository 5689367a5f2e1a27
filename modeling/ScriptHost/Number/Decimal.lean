import ScriptHost.Number.Binary
/-!
# Floating point numbers as decimals

A floating point number is written with the fewest decimal digits that read back as it, and among
those with the nearest. The search is exact: it walks from coarse decimal grids to fine ones and
asks, in whole numbers, whether one of the two neighbours of the number on the grid lies in the
interval of reals that round to it.

Digits are always written out, never with a power of ten beside them. `Decimal.read` goes the
other way.
-/

set_option autoImplicit false

namespace ScriptHost

/-- The number `digits · 10 ^ exponent`. -/
structure Decimal where
  digits : Nat
  exponent : Int
deriving DecidableEq, Repr, Inhabited

namespace Decimal

/-- The interval of reals that round to a number, in quarters of the last place of its mantissa. -/
structure Interval where
  /-- Four times the mantissa: the number itself. -/
  middle : Nat
  low : Nat
  high : Nat
  /-- Whether the ends round to the number as well. -/
  closed : Bool

/-- The reals that round to `mantissa · 2 ^ exponent`. They reach half way to each neighbour; the
lower neighbour of a power of two is nearer. The ends belong to an even mantissa. -/
def Interval.around (mantissa : Nat) (exponent : Int) : Interval :=
  let nearer := decide (mantissa = Binary.hiddenBit) && decide (Binary.minExponent < exponent)
  { middle := 4 * mantissa
    low := 4 * mantissa - (if nearer then 1 else 2)
    high := 4 * mantissa + 2
    closed := mantissa % 2 == 0 }

/-- The neighbour of the number on the grid of multiples of `10 ^ power` that rounds to it, if one
does; of two the nearer, and the greater when both are as near. -/
def onGrid (reals : Interval) (exponent power : Int) : Option Nat :=
  let place := Nat.pow 2 (exponent - 2).toNat * Nat.pow 10 (-power).toNat
  let unit := Nat.pow 2 (2 - exponent).toNat * Nat.pow 10 power.toNat
  let middle := reals.middle * place
  let inside (n : Nat) : Bool :=
    if reals.closed then
      decide (reals.low * place ≤ n * unit) && decide (n * unit ≤ reals.high * place)
    else
      decide (reals.low * place < n * unit) && decide (n * unit < reals.high * place)
  let below := middle / unit
  let above := below + 1
  match inside below, inside above with
  | false, false => none
  | true, false => some below
  | false, true => some above
  | true, true => if middle - below * unit < above * unit - middle then some below else some above

/-- At or above the decimal exponent of `mantissa · 2 ^ exponent`, by one at most. -/
def topPower (mantissa : Nat) (exponent : Int) : Int :=
  Int.fdiv ((exponent + Nat.log2 mantissa) * 30103) 100000 + 1

/-- The fewest digits that read back as `mantissa · 2 ^ exponent`. Seventeen always do. -/
def shortest (mantissa : Nat) (exponent : Int) : Decimal :=
  if mantissa = 0 then ⟨0, 0⟩
  else
    let reals := Interval.around mantissa exponent
    let top := topPower mantissa exponent
    let grid (i : Nat) : Option Decimal :=
      (onGrid reals exponent (top - i)).map (⟨·, top - i⟩)
    ((List.range 20).findSome? grid).getD ⟨0, 0⟩

/-- The digits written out, with a point only where digits follow it. -/
def text (d : Decimal) : String :=
  let digits := toString d.digits
  if 0 ≤ d.exponent then digits ++ "".pushn '0' d.exponent.toNat
  else
    let places := (-d.exponent).toNat
    if places < digits.length then
      String.ofList (digits.toList.take (digits.length - places)) ++ "." ++
        String.ofList (digits.toList.drop (digits.length - places))
    else "0." ++ "".pushn '0' (places - digits.length) ++ digits

/-- The value of a row of decimal digits. -/
def ofDigits (cs : List Char) : Nat :=
  cs.foldl (fun n c => 10 * n + (c.toNat - '0'.toNat)) 0

/-- The floating point number nearest to `digits · 10 ^ exponent`. -/
def toFloat (d : Decimal) : Float :=
  if 0 ≤ d.exponent then Float.ofScientific d.digits false d.exponent.toNat
  else Float.ofScientific d.digits true (-d.exponent).toNat

/-- The number written as `whole`, a point and `fraction`. -/
def ofParts (whole fraction : List Char) : Decimal :=
  ⟨ofDigits (whole ++ fraction), -(fraction.length : Int)⟩

end Decimal

/-- A floating point number as text: the fewest digits that read back as it, written out. -/
def floatText (x : Float) : String :=
  if x.isNaN then "NaN"
  else if x.isInf then (if x < 0 then "-inf" else "inf")
  else
    let parts := Binary.ofFloat x
    (if parts.negative then "-" else "") ++ (Decimal.shortest parts.mantissa parts.exponent).text

/-- A floating point number as text that cannot be taken for a whole number: whole numbers below
`10 ^ 15` end in `.0`. -/
def pointedFloatText (x : Float) : String :=
  if x.isFinite && (Binary.ofFloat x).isWhole && x.abs < 1e15 then floatText x ++ ".0"
  else floatText x

/-- The digits with a point behind the first one and the power of ten that this leaves. -/
def Decimal.scientific (d : Decimal) : String :=
  let digits := (toString d.digits).toList
  let power := d.exponent + (digits.length - 1 : Nat)
  let fraction := digits.drop 1
  String.ofList (digits.take 1) ++ (if fraction.isEmpty then "" else "." ++ String.ofList fraction) ++
    "e" ++ toString power

/-- A floating point number as text in which it is told exactly what it is: whole numbers end in
`.0`, and very large and very small ones have a power of ten beside them. -/
def exactFloatText (x : Float) : String :=
  if x.isNaN || x.isInf then floatText x
  else
    let parts := Binary.ofFloat x
    if x == 0 || (1e-4 ≤ x.abs && x.abs < 1e16) then
      if parts.isWhole then floatText x ++ ".0" else floatText x
    else
      (if parts.negative then "-" else "") ++
        (Decimal.shortest parts.mantissa parts.exponent).scientific

end ScriptHost
