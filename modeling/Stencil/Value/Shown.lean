import Stencil.Text.Shown
import Stencil.Value.Basic

/-!
# Values described

The description of a value for the developer names its kind and shows its content. Functions show
nothing but their kind.
-/

namespace Stencil.Value

variable {φ : Type}

mutual

def describe : Value φ → String
  | .null => "Null"
  | .boolean value => if value then "Bool(true)" else "Bool(false)"
  | .number value => "Number(Number(" ++ String.ofList value.write ++ "))"
  | .string text => "String(" ++ showText text ++ ")"
  | .safe text => "Safe(" ++ showText text ++ ")"
  | .array items => "Array(" ++ showList (describeItems items) ++ ")"
  | .object members => "Object(" ++ showTable (describeMembers members) ++ ")"
  | .function _ => "Function"

def describeItems : List (Value φ) → List String
  | [] => []
  | item :: items => item.describe :: describeItems items

def describeMembers : List (String × Value φ) → List (String × String)
  | [] => []
  | (name, member) :: members => (name, member.describe) :: describeMembers members

end

end Stencil.Value
