/-!
# Pieces between separators

A list falls into pieces at the elements that separate. Every separator ends a piece and starts the
next, so there is one piece more than there are separators, and pieces can be empty.
-/

namespace Stencil

variable {α : Type}

/-- The pieces of a list between its separators. -/
def pieces (separates : α → Bool) : List α → List (List α)
  | [] => [[]]
  | first :: rest =>
    if separates first then [] :: pieces separates rest
    else match pieces separates rest with
      | piece :: others => (first :: piece) :: others
      | [] => [[first]]

end Stencil
