import Stencil.Text.Shapeless

/-!
# Text shown in quotes

Descriptions for the developer show text between double quotes. A character that would end the
quotes, or that has no shape of its own, is shown by an escape.
-/

namespace Stencil

def showChar : Char → List Char
  | '"' => ['\\', '"']
  | '\\' => ['\\', '\\']
  | '\n' => ['\\', 'n']
  | '\r' => ['\\', 'r']
  | '\t' => ['\\', 't']
  | '\x00' => ['\\', '0']
  | char =>
    if isShapeless char then ['\\', 'u', '{'] ++ Nat.toDigits 16 char.toNat ++ ['}'] else [char]

def showText (text : String) : String :=
  String.ofList ('"' :: text.toList.flatMap showChar ++ ['"'])

/-- How a path is shown: like a text, but single quotes are guarded as well. -/
def showPath (path : String) : String :=
  let shown := fun char : Char => if char = '\'' then ['\\', char] else showChar char
  String.ofList ('"' :: path.toList.flatMap shown ++ ['"'])

def showList (items : List String) : String :=
  "[" ++ String.intercalate ", " items ++ "]"

def showTable (entries : List (String × String)) : String :=
  "\x7b" ++ String.intercalate ", " (entries.map fun entry => showText entry.1 ++ ": " ++ entry.2)
    ++ "\x7d"

end Stencil
