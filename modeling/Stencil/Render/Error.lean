import Stencil.Markup.Error

/-!
# Why a template does not render

Rendering fails if a partial is missing or does not parse, if a helper says so, or if the context
cannot be turned into a value.
-/

namespace Stencil

inductive RenderError where
  | partialNotFound (name : String)
  /-- A partial that was registered as text does not parse -/
  | unparsable (error : ParseError)
  | helperFailed (name message : String)
  /-- The context cannot be turned into a value -/
  | unconvertible (reason : String)
deriving Repr, DecidableEq

def RenderError.message : RenderError → String
  | .partialNotFound name => "The partial " ++ name ++ " could not be found"
  | .unparsable error => error.message
  | .helperFailed name message => "helper `" ++ name ++ "` failed: " ++ message
  | .unconvertible reason => "failed to convert context: " ++ reason

end Stencil
