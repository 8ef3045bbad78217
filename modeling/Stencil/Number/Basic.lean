import Stencil.Number.Notation

/-!
# Numbers

A number is a whole number or a double, and the two never count as equal. Whole numbers come from
text only within 64 bits; a larger one is read as a double. A whole double below 2 ^ 53 shows no
fraction when a template prints it.
-/

namespace Stencil

inductive Number where
  | integer (value : Int)
  | double (value : Double)
deriving DecidableEq

def writeInt (value : Int) : List Char :=
  if value < 0 then '-' :: Nat.toDigits 10 value.natAbs else Nat.toDigits 10 value.natAbs

namespace Number

/-- Whether a whole number has a place in 64 bits, with or without a sign. -/
def fits64 (value : Int) : Bool :=
  decide (-0x8000000000000000 ≤ value ∧ value < 0x10000000000000000)

def same : Number → Number → Bool
  | .integer left, .integer right => left == right
  | .double left, .double right => left.same right
  | _, _ => false

def isZero : Number → Bool
  | .integer value => value == 0
  | .double value => value.isZero

/-- The number as a double, rounded if it has to be. -/
def toDouble? : Number → Option Double
  | .integer value => Double.ofInt? value
  | .double value => some value

/-- The whole number of a number that is written as one and fits 64 bits with a sign. -/
def toInt64? : Number → Option Int
  | .integer value => if value < 0x8000000000000000 then some value else none
  | .double _ => none

/-- The text of a number in which doubles can be told from whole numbers. -/
def write : Number → List Char
  | .integer value => writeInt value
  | .double value => value.write

/-- The text of a number in the output of a template. -/
def render : Number → List Char
  | .integer value => writeInt value
  | .double value =>
    match value.toInt? with
    | some whole => if whole.natAbs < 0x20000000000000 then writeInt whole else value.write
    | none => value.write

end Number

end Stencil
