import Stencil.Render.Renderer
import Stencil.Template.Compile

/-!
# Rendering templates

A template is rendered from a root context. Templates that include themselves are rendered as long
as the nesting of partials stays within a limit, which the run carries along.
-/

namespace Stencil

variable {φ σ : Type}

namespace Host

/-- Compiles partials whenever they are needed, and takes note of what happens. -/
def noting (note : Event φ → σ → σ) : Host φ σ where
  note := note
  compile := fun source trackData state =>
    (Template.compile source.text (SourcePartial.options trackData), state)

/-- Takes no notes and lets its state be. -/
def silent : Host φ σ :=
  noting fun _ state => state

def plain : Host φ Unit :=
  silent

def recording : Host φ (List (Event φ)) :=
  noting fun event events => events ++ [event]

end Host

namespace Template

/-- How deeply partials may be nested unless said otherwise: far deeper than an inclusion that ends
by itself goes. -/
def nestingLimit : Nat := 1000000

/-- Renders a template within a host, with at most so many partials inside one another. -/
def run [Callable φ] (host : Host φ σ) (environment : Environment φ) :
    Nat → Template → Value φ → Option (Table (Value φ)) → Run σ String
  | 0, _, _, _ => Run.exhausted
  | limit + 1, template, context, data =>
    Renderer.ops ⟨host, environment, template.options, run host environment limit⟩
      { current := context, data := if template.options.data then data else none } template.ops

def render [Callable φ] (template : Template) (context : Value φ) (environment : Environment φ) :
    Outcome String :=
  (template.run .plain environment nestingLimit context environment.data ()).1

def renderRecording [Callable φ] (template : Template) (context : Value φ) (environment : Environment φ) :
    Outcome String × List (Event φ) :=
  template.run .recording environment nestingLimit context environment.data []

end Template

end Stencil
