import Stencil.Number.Numeral
import Stencil.Table

/-!
# Values

A template walks over values: the usual data, text that is safe in HTML as it is, and functions.
What a function does is not part of the value. A value only carries a handle, and two functions are
equal if their handles are.
-/

namespace Stencil

/-- Values whose functions are known by handles of the given type. The members of an object form a
table. -/
inductive Value (φ : Type) where
  | null
  | boolean (value : Bool)
  | number (value : Number)
  | string (text : String)
  /-- Text that is written as it is even where values are escaped -/
  | safe (text : String)
  | array (items : List (Value φ))
  | object (members : List (String × Value φ))
  | function (handle : φ)
deriving Inhabited

variable {φ : Type}

/-- The position in an array that a text names: decimal digits below 2 ^ 64, perhaps after a plus
sign. -/
def arrayIndex? (text : List Char) : Option Nat :=
  let digits := match text with
    | '+' :: rest => rest
    | _ => text
  if digits ≠ [] ∧ digits.all Char.isDigit ∧ digitsValue digits < 0x10000000000000000 then
    some (digitsValue digits)
  else none

namespace Value

def get? (name : String) : Value φ → Option (Value φ)
  | .object members => Table.find? name members
  | .array items => (arrayIndex? name.toList).bind fun index => items[index]?
  | _ => none

/-- The value that names lead to, one inside the other. -/
def descend? : List String → Value φ → Option (Value φ)
  | [], value => some value
  | name :: names, value => (value.get? name).bind (descend? names)

def isNull : Value φ → Bool
  | .null => true
  | _ => false

/-- Whether a value counts as true. Null, `false`, zero, empty text and the empty array do not;
objects and functions always do. -/
def isTruthy : Value φ → Bool
  | .null => false
  | .boolean value => value
  | .number value => !value.isZero
  | .string text => text != ""
  | .safe text => text != ""
  | .array items => !items.isEmpty
  | .object _ => true
  | .function _ => true

def asText? : Value φ → Option String
  | .string text => some text
  | .safe text => some text
  | _ => none

def asBool? : Value φ → Option Bool
  | .boolean value => some value
  | _ => none

def asInt64? : Value φ → Option Int
  | .number value => value.toInt64?
  | _ => none

def asDouble? : Value φ → Option Double
  | .number value => value.toDouble?
  | _ => none

def asArray? : Value φ → Option (List (Value φ))
  | .array items => some items
  | _ => none

def asObject? : Value φ → Option (Table (Value φ))
  | .object members => some members
  | _ => none

def isFunction : Value φ → Bool
  | .function _ => true
  | _ => false

/-- The value of a double, which is null if there is none. -/
def ofDouble? : Option Double → Value φ
  | some double => .number (.double double)
  | none => .null

/-! ### Equality -/

mutual

/-- Equality of values. Numbers are compared by size, so the two zeros among the doubles are equal;
text and safe text never are. -/
def same [BEq φ] : Value φ → Value φ → Bool
  | .null, .null => true
  | .boolean left, .boolean right => left == right
  | .number left, .number right => left.same right
  | .string left, .string right => left == right
  | .safe left, .safe right => left == right
  | .array left, .array right => sameItems left right
  | .object left, .object right => sameMembers left right
  | .function left, .function right => left == right
  | _, _ => false

def sameItems [BEq φ] : List (Value φ) → List (Value φ) → Bool
  | [], [] => true
  | left :: lefts, right :: rights => left.same right && sameItems lefts rights
  | _, _ => false

def sameMembers [BEq φ] : List (String × Value φ) → List (String × Value φ) → Bool
  | [], [] => true
  | (leftName, left) :: lefts, (rightName, right) :: rights =>
    leftName == rightName && left.same right && sameMembers lefts rights
  | _, _ => false

end

end Value

end Stencil
