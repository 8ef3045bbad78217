import Stencil.Embed.Lexeme
import Stencil.Text.Pieces

/-!
# Groups in declarations

Lexemes between brackets form a group, so a declaration is a list of trees, and a separator inside a
group separates nothing outside it. Brackets that do not match make no trees.
-/

namespace Stencil.Embed

inductive Tree where
  | leaf (lexeme : Lexeme)
  /-- A group, by its opening bracket -/
  | group (opener : Char) (trees : List Tree)
deriving Repr

def closerOf? : Char → Option Char
  | '(' => some ')'
  | '[' => some ']'
  | '{' => some '}'
  | _ => none

def isCloser (char : Char) : Bool :=
  char ∈ [')', ']', '}']

/-- Builds trees from lexemes, with the open groups from the inside out. Each open group has its
opening bracket and the trees in front of it. -/
def buildTrees : List (Char × List Tree) → List Tree → List Lexeme → Option (List Tree)
  | [], trees, [] => some trees
  | _ :: _, _, [] => none
  | groups, trees, lexeme :: rest =>
    match lexeme with
    | .mark char =>
      if (closerOf? char).isSome then buildTrees ((char, trees) :: groups) [] rest
      else if isCloser char then
        match groups with
        | (opener, before) :: outer =>
          if closerOf? opener = some char then
            buildTrees outer (before ++ [.group opener trees]) rest
          else none
        | [] => none
      else buildTrees groups (trees ++ [.leaf lexeme]) rest
    | _ => buildTrees groups (trees ++ [.leaf lexeme]) rest

def trees? (source : String) : Option (List Tree) := do
  buildTrees [] [] (← lexemes? source)

def Tree.isMark (char : Char) : Tree → Bool
  | .leaf (.mark found) => found == char
  | _ => false

/-! ### Separators -/

/-- The items of a list with separators, where one may stand behind the last item, or nothing if an
item is missing. -/
def items? (char : Char) (trees : List Tree) : Option (List (List Tree)) :=
  let parts := pieces (Tree.isMark char) trees
  let parts := if (parts.getLast?.getD []).isEmpty then parts.dropLast else parts
  if parts.all (!·.isEmpty) then some parts else none

end Stencil.Embed
