import Stencil.Number.Double

/-!
# Shortest decimal digits

The decimal digits of a double are the fewest that still read back as the same double, and of those
the nearest. A decimal reads back if it lies between the midpoints to the two neighbours, the
midpoints included when the significand is even. For each number of digits from one to seventeen the
two decimals on either side of the double are tried.

All sizes are compared as natural numbers: a size is counted in units of 2 ^ -1076 * 10 ^ -400,
which are finer than any of the decimals and midpoints involved.
-/

namespace Stencil

/-- A number of the form `digits * 10 ^ exponent`. -/
structure Decimal where
  digits : Nat
  exponent : Int
deriving Repr, DecidableEq

namespace Decimal

/-- The decimal without zeros at its end, up to a number of them. -/
def trimZeros : Nat → Decimal → Decimal
  | 0, decimal => decimal
  | count + 1, ⟨digits, exponent⟩ =>
    if digits ≠ 0 ∧ digits % 10 = 0 then trimZeros count ⟨digits / 10, exponent + 1⟩
    else ⟨digits, exponent⟩

end Decimal

namespace Double

/-- The size of a double in the units of the search. -/
def units (double : Double) : Nat :=
  4 * double.significand * Nat.pow 2 double.scale * Nat.pow 10 400

/-- Half the way to the next larger double. -/
def halfAbove (double : Double) : Nat :=
  2 * Nat.pow 2 double.scale * Nat.pow 10 400

/-- Half the way to the next smaller double, which is nearer where the scale changes. -/
def halfBelow (double : Double) : Nat :=
  if double.significand = 0x10000000000000 ∧ 0 < double.scale then
    Nat.pow 2 double.scale * Nat.pow 10 400
  else double.halfAbove

/-- Whether a size rounds to the double. -/
def readsBack (double : Double) (size : Nat) : Bool :=
  if double.significand % 2 = 0 then
    double.units ≤ size + double.halfBelow && size ≤ double.units + double.halfAbove
  else
    double.units < size + double.halfBelow && size < double.units + double.halfAbove

/-- The nearest decimal among the multiples of a step that reads back, given by its digits. -/
def digitsOnGrid? (double : Double) (step : Nat) : Option Nat :=
  let below := double.units / step
  let above := below + 1
  match double.readsBack (below * step), double.readsBack (above * step) with
  | true, false => some below
  | false, true => some above
  | false, false => none
  | true, true => some (roundQuotient double.units step)

/-- Tries the grids with more and more digits. The first argument counts the digits that are still
allowed, the second the place of the last digit, in powers of 10 ^ -400. -/
def digitsFrom (double : Double) : Nat → Nat → Decimal
  | 0, place => ⟨double.units / (Nat.pow 10 place * Nat.pow 2 1076), (place : Int) - 400⟩
  | count + 1, place =>
    match double.digitsOnGrid? (Nat.pow 10 place * Nat.pow 2 1076) with
    | some digits => ⟨digits, (place : Int) - 400⟩
    | none => digitsFrom double count (place - 1)

/-- The shortest digits of a double that is not zero. -/
def shortest (double : Double) : Decimal :=
  let length := (Nat.toDigits 10 (double.units / Nat.pow 2 1076)).length
  (digitsFrom double 17 (length - 1)).trimZeros 1

end Double

end Stencil
