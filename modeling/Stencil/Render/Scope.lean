import Stencil.Markup.Path
import Stencil.Value.Basic

/-!
# Scopes

The scope of a tag is the current context, the contexts around it from the inside out, and the data
frame. A path starts at one of these contexts and descends from there.
-/

namespace Stencil

structure Scope (φ : Type) where
  current : Value φ
  outer : List (Value φ) := []
  data : Option (Table (Value φ)) := none

namespace Scope

variable {φ : Type}

/-- The context some parents up. -/
def frame? (scope : Scope φ) (depth : Nat) : Option (Value φ) :=
  (scope.current :: scope.outer)[depth]?

def find? (scope : Scope φ) (path : Path) : Option (Value φ) :=
  (scope.frame? path.depth).bind (Value.descend? path.segments)

def enter (scope : Scope φ) (context : Option (Value φ)) (data : Option (Table (Value φ))) : Scope φ where
  current := context.getD scope.current
  outer := scope.current :: scope.outer
  data := data.or scope.data

end Scope

end Stencil
