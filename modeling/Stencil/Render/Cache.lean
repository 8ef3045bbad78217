import Stencil.Render.Template

/-!
# Keeping compiled partials

A partial that is registered as a text has two slots, one for templates that track the data frame
and one for those that do not. A slot is filled when the partial is compiled for the first time, and
what is in it is used from then on. A text that does not parse fills no slot.
-/

namespace Stencil

/-- What was compiled, under the number of the partial and whether it tracks data. -/
abbrev Cache := List ((Nat × Bool) × Template)

namespace Cache

/-- Takes a template from its slot or compiles it into the slot. -/
def compile (source : SourcePartial) (trackData : Bool) (cache : Cache) :
    Except ParseError Template × Cache :=
  match cache.lookup (source.cell, trackData) with
  | some template => (.ok template, cache)
  | none =>
    match Template.compile source.text (SourcePartial.options trackData) with
    | .ok template => (.ok template, ((source.cell, trackData), template) :: cache)
    | .error error => (.error error, cache)

end Cache

/-- Keeps compiled partials and all events. -/
def Host.caching {φ : Type} : Host φ (Cache × List (Event φ)) where
  note := fun event state => (state.1, state.2 ++ [event])
  compile := fun source trackData state =>
    ((state.1.compile source trackData).1, (state.1.compile source trackData).2, state.2)

end Stencil
