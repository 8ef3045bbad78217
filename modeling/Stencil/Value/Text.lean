import Stencil.Html
import Stencil.Value.Basic

/-!
# Values as text

What a value contributes to the output. Arrays join the texts of their items with commas, objects
have one text for all, null and functions have none. A tag that escapes writes safe text as it is
and escapes every other.
-/

namespace Stencil.Value

variable {φ : Type}

mutual

def render : Value φ → String
  | .null => ""
  | .boolean value => if value then "true" else "false"
  | .number value => String.ofList value.render
  | .string text => text
  | .safe text => text
  | .array items => String.intercalate "," (renderItems items)
  | .object _ => "[object Object]"
  | .function _ => ""

def renderItems : List (Value φ) → List String
  | [] => []
  | item :: items => item.render :: renderItems items

end

def escaped : Value φ → String
  | .safe text => text
  | .null => ""
  | value => Html.escape value.render

def write (escape : Bool) (value : Value φ) : String :=
  if escape then value.escaped else value.render

end Stencil.Value
