import Stencil.Number.Shortest

/-!
# Writing doubles

A double is written with its shortest digits. With the value as d.ddd * 10 ^ E, the plain notation
is used for E from -5 to 15 and always shows a fraction; beyond that the exponent is written out
with its sign.
-/

namespace Stencil

/-- The exponents that are written in plain notation, from the first up to but not including the
second. -/
def plainExponents : Int × Int := (-5, 16)

namespace Decimal

def digitText (decimal : Decimal) : List Char :=
  Nat.toDigits 10 decimal.digits

/-- The exponent of the first digit. -/
def leading (decimal : Decimal) : Int :=
  decimal.exponent + decimal.digitText.length - 1

/-- The notation without an exponent: `0.00125`, `12.5` or `1200.0`. -/
def plain (decimal : Decimal) : List Char :=
  let digits := decimal.digitText
  let whole := decimal.leading + 1
  if whole ≤ 0 then ['0', '.'] ++ List.replicate (-whole).toNat '0' ++ digits
  else if digits.length ≤ whole.toNat then
    digits ++ List.replicate (whole.toNat - digits.length) '0' ++ ['.', '0']
  else digits.take whole.toNat ++ '.' :: digits.drop whole.toNat

/-- The notation with an exponent: `1e+16` or `1.25e-7`. -/
def scientific (decimal : Decimal) : List Char :=
  let fraction := match decimal.digitText.tail with
    | [] => []
    | digits => '.' :: digits
  let sign := if decimal.leading < 0 then '-' else '+'
  decimal.digitText.take 1 ++ fraction ++ 'e' :: sign :: Nat.toDigits 10 decimal.leading.natAbs

def write (decimal : Decimal) : List Char :=
  if plainExponents.1 ≤ decimal.leading ∧ decimal.leading < plainExponents.2 then decimal.plain
  else decimal.scientific

end Decimal

def Double.write (double : Double) : List Char :=
  let sign := if double.negative then ['-'] else []
  if double.isZero then sign ++ ['0', '.', '0'] else sign ++ double.shortest.write

end Stencil
