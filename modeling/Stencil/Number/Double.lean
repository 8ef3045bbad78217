/-!
# Doubles

The finite numbers of the double format. A double is a sign, a significand below 2 ^ 53 and a scale:
its size is the significand times 2 ^ (scale - 1074). The significand is as large as its scale
allows, so every size has one form. Rounding goes to the nearest double, and to the one with the
even significand if two are equally near.
-/

namespace Stencil

/-- The forms that stand for a size: the significand takes all its 53 bits unless the scale is the
lowest. -/
def IsCanonical (significand scale : Nat) : Prop :=
  significand < 0x20000000000000 ∧ scale ≤ 2045 ∧ (0x10000000000000 ≤ significand ∨ scale = 0)

instance (significand scale : Nat) : Decidable (IsCanonical significand scale) :=
  inferInstanceAs (Decidable (_ ∧ _))

structure Double where
  negative : Bool
  significand : Nat
  scale : Nat
  canonical : IsCanonical significand scale
deriving DecidableEq

/-- The nearest natural number to a quotient, and the even one of two that are equally near. -/
def roundQuotient (numerator denominator : Nat) : Nat :=
  let quotient := numerator / denominator
  let twice := 2 * (numerator % denominator)
  if twice < denominator ∨ (twice = denominator ∧ quotient % 2 = 0) then quotient else quotient + 1

namespace Double

def zero (negative : Bool) : Double :=
  ⟨negative, 0, 0, by decide⟩

def isZero (double : Double) : Bool :=
  double.significand == 0

/-- The double for a significand and a scale, where the significand may have reached 2 ^ 53 by
rounding, or nothing if the size is too large. -/
def ofRounded? (negative : Bool) (significand scale : Nat) : Option Double :=
  if h : IsCanonical significand scale then some ⟨negative, significand, scale, h⟩
  else if h : significand = 0x20000000000000 ∧ scale < 2045 then
    some ⟨negative, 0x10000000000000, scale + 1, by decide, h.2, .inl (Nat.le_refl _)⟩
  else none

/-- The double nearest to a quotient, or nothing if that is too large. -/
def ofQuotient? (negative : Bool) (numerator denominator : Nat) : Option Double :=
  let scaled := numerator * Nat.pow 2 1074
  let scale := (scaled / denominator).log2 - 52
  ofRounded? negative (roundQuotient scaled (denominator * Nat.pow 2 scale)) scale

def ofInt? (value : Int) : Option Double :=
  ofQuotient? (decide (value < 0)) value.natAbs 1

/-- The size of a double in steps of 2 ^ -1074. -/
def steps (double : Double) : Nat :=
  double.significand * Nat.pow 2 double.scale

/-- The double nearest to a product, or nothing if that is too large. -/
def mul? (left right : Double) : Option Double :=
  ofQuotient? (left.negative != right.negative) (left.steps * right.steps) (Nat.pow 2 1074 * Nat.pow 2 1074)

/-- The double nearest to a quotient of doubles, or nothing if that is too large. -/
def div? (left right : Double) : Option Double :=
  if right.isZero then none
  else ofQuotient? (left.negative != right.negative) left.steps right.steps

/-- The double nearest to a power of ten, which is one up to 10 ^ 308. -/
def tenPower? (exponent : Nat) : Option Double :=
  ofQuotient? false (Nat.pow 10 exponent) 1

/-- Divides a double by 10 ^ 308 a number of times. -/
def divideBlocks? : Nat → Double → Option Double
  | 0, double => some double
  | count + 1, double => do
    let divisor ← tenPower? 308
    let quotient ← double.div? divisor
    divideBlocks? count quotient

/-- A double near `significand * 10 ^ exponent`, or nothing if that is too large. It need not be the
nearest, since the significand, the power of ten and their product or quotient are rounded each by
itself. What no power of ten can move at once is divided in blocks of 308 places. -/
def ofParts? (negative : Bool) (significand : Nat) (exponent : Int) : Option Double :=
  if significand = 0 then some (zero negative)
  else do
    let double ← ofQuotient? negative significand 1
    if 0 ≤ exponent then
      let factor ← tenPower? exponent.toNat
      double.mul? factor
    else
      let places := (-exponent).toNat - 1
      let divided ← double.divideBlocks? (places / 308)
      let divisor ← tenPower? (places % 308 + 1)
      divided.div? divisor

/-- The double nearest to `digits * 10 ^ exponent`, or nothing if that is too large. The number of
digits settles the sizes far outside the format. -/
def ofDecimal? (negative : Bool) (digits : Nat) (exponent : Int) : Option Double :=
  let magnitude := (Nat.toDigits 10 digits).length + exponent
  if digits = 0 ∨ magnitude < -330 then some (zero negative)
  else if 310 < magnitude then none
  else if 0 ≤ exponent then ofQuotient? negative (digits * Nat.pow 10 exponent.toNat) 1
  else ofQuotient? negative digits (Nat.pow 10 (-exponent).toNat)

def toInt? (double : Double) : Option Int :=
  if double.steps % Nat.pow 2 1074 = 0 then
    let size : Int := (double.steps / Nat.pow 2 1074 : Nat)
    some (if double.negative then -size else size)
  else none

/-- Numeric equality, in which the two zeros are equal. -/
def same (left right : Double) : Bool :=
  left.significand == right.significand && left.scale == right.scale &&
    (left.negative == right.negative || left.isZero)

end Double

end Stencil
