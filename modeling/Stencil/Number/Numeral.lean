import Stencil.Number.Basic

/-!
# Reading numbers

A numeral of a template that is a whole number within 64 bits stays whole, and any other is read as
a double. The first digits of it, up to 64 bits, are taken as a significand, which a power of ten
then moves to its place. Both steps round, so `933963456069303.5` is read as the double that is
written `933963456069303.6`. A numeral with a superfluous zero in front denotes no number, and
neither does one that is too large. Minus zero is a double, since whole numbers have no such value.

The text of a double outside a template may have an exponent, and digits may be missing on one side
of the point. It is not taken apart in this way: it is rounded once, to the nearest double.
-/

namespace Stencil

def splitMinus : List Char → Bool × List Char
  | '-' :: rest => (true, rest)
  | text => (false, text)

def splitSign : List Char → Bool × List Char
  | '-' :: rest => (true, rest)
  | '+' :: rest => (false, rest)
  | text => (false, text)

def digitsValue (digits : List Char) : Nat :=
  Nat.ofDigitChars 10 digits 0

/-- Takes digits into a significand as long as it fits 64 bits. Gives the significand and the digits
that are left. -/
def takeDigits : Nat → List Char → Nat × List Char
  | significand, [] => (significand, [])
  | significand, digit :: rest =>
    let longer := Nat.ofDigitChars 10 [digit] significand
    if longer < 0x10000000000000000 then takeDigits longer rest else (significand, digit :: rest)

/-- The double that the digits before and behind a point are read as. Digits that do not fit count
as zeros before the point and are left out behind it. -/
def Double.ofDigits? (negative : Bool) (whole fraction : List Char) : Option Double :=
  let (significand, dropped) := takeDigits 0 whole
  let (significand, ignored) := takeDigits significand fraction
  ofParts? negative significand (dropped.length - (fraction.length - ignored.length : Nat))

namespace Number

/-- The number of a whole numeral without superfluous zeros. -/
def ofWhole? (negative : Bool) (digits : List Char) : Option Number :=
  let size := digitsValue digits
  let value : Int := if negative then -(size : Int) else size
  if negative ∧ size = 0 then some (.double (.zero true))
  else if fits64 value then some (.integer value)
  else (Double.ofDigits? negative digits []).map .double

/-- The number of a numeral: digits with an optional minus sign in front and an optional fraction
behind. -/
def ofNumeral? (text : List Char) : Option Number :=
  let (negative, unsigned) := splitMinus text
  let whole := unsigned.takeWhile Char.isDigit
  if 1 < whole.length ∧ whole.head? = some '0' then none
  else match unsigned.dropWhile Char.isDigit with
    | '.' :: fraction => (Double.ofDigits? negative whole fraction).map .double
    | _ => ofWhole? negative whole

end Number

def exponent? : List Char → Option Int
  | [] => some 0
  | mark :: rest =>
    let (negative, digits) := splitSign rest
    if (mark = 'e' ∨ mark = 'E') ∧ digits ≠ [] ∧ digits.all Char.isDigit then
      some (if negative then -(digitsValue digits : Int) else digitsValue digits)
    else none

/-- The double nearest to what a text such as `-1.25e7`, `.5` or `5.` says. A text of any other form
and a number that is too large denote none. -/
def Double.ofText? (text : List Char) : Option Double :=
  let (negative, unsigned) := splitSign text
  let whole := unsigned.takeWhile Char.isDigit
  let (fraction, rest) := match unsigned.dropWhile Char.isDigit with
    | '.' :: rest => (rest.takeWhile Char.isDigit, rest.dropWhile Char.isDigit)
    | rest => ([], rest)
  if whole = [] ∧ fraction = [] then none
  else match exponent? rest with
    | some exponent =>
      Double.ofDecimal? negative (digitsValue (whole ++ fraction)) (exponent - fraction.length)
    | none => none

def wholeNumber? (text : List Char) : Option Int :=
  let (negative, digits) := splitSign text
  if digits ≠ [] ∧ digits.all Char.isDigit then
    some (if negative then -(digitsValue digits : Int) else digitsValue digits)
  else none

end Stencil
