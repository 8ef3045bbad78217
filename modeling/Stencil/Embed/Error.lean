import Stencil.Markup.Error
import Stencil.Text.Shown

/-!
# Why a declaration is refused

A declaration that is not of the form is refused without a word, since the program around it is not
of the form either. The other reasons are told.
-/

namespace Stencil.Embed

inductive DeclarationError where
  /-- The declaration does not have its form -/
  | malformed
  /-- An option is named by a path -/
  | pathAsOption
  | unknownOption (name : String)
  | noFlag
  | noNames
  | noText
  | invalidTemplate (error : ParseError)
  /-- There is no root to look for directories in -/
  | noRoot
  | noDirectory (path : String)
  | unreadable (path : String)
  | invalidPartial (name : String) (error : ParseError)
deriving Repr, DecidableEq

def DeclarationError.message? : DeclarationError → Option String
  | .malformed => none
  | .pathAsOption => some "expected an option name"
  | .unknownOption name => some ("unknown template option `" ++ name ++ "`")
  | .noFlag => some "expected `true` or `false`"
  | .noNames => some "expected an array of helper names"
  | .noText => some "expected a string literal"
  | .invalidTemplate error => some ("invalid template: " ++ error.message)
  | .noRoot => some "CARGO_MANIFEST_DIR not set"
  | .noDirectory path => some ("Directory not found: " ++ showPath path)
  | .unreadable path =>
    some ("Failed to read " ++ showPath path ++ ": stream did not contain valid UTF-8")
  | .invalidPartial name error => some ("invalid partial `" ++ name ++ "`: " ++ error.message)

end Stencil.Embed
