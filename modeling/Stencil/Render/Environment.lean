import Stencil.Helper.Basic
import Stencil.Template.Op

/-!
# The environment

What a template is rendered with: named helpers, named partials and the data frame at the root. A
partial is a text, a compiled template or a function from the context to text. A partial that is a
text is compiled when it is first needed. It has a number, so that what was compiled can be found
again.
-/

namespace Stencil

/-- A partial that is registered as a text. -/
structure SourcePartial where
  text : String
  /-- The number under which its compiled forms are kept -/
  cell : Nat := 0
deriving Repr, DecidableEq

/-- The options with which the text of a partial is compiled: the default ones, and data tracking as
asked. -/
def SourcePartial.options (trackData : Bool) : CompileOptions :=
  { data := trackData }

inductive Partial (φ : Type) where
  | source (source : SourcePartial)
  | compiled (template : Template)
  | function (render : Value φ → Except RenderError String)

structure Environment (φ : Type) where
  helpers : Table (Helper φ) := Helper.builtins
  partials : Table (Partial φ) := []
  data : Option (Table (Value φ)) := none

namespace Environment

variable {φ : Type}

/-- The helper that is registered under the name of one of the library, or else that one. -/
def hook (environment : Environment φ) (builtin : Builtin) : Helper φ :=
  (environment.helpers.find? builtin.name).getD (.builtin builtin)

end Environment

end Stencil
