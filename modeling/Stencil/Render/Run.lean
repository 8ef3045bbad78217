import Stencil.Markup.Error
import Stencil.Render.Environment

/-!
# Runs

Rendering takes place within a host. The host compiles the partials that are texts, where it may
keep what it compiled, and takes note of what happens. A run ends with a result, with an error, or
because partials are nested too deeply.
-/

namespace Stencil

inductive Outcome (α : Type) where
  | done (result : α)
  | failed (error : RenderError)
  /-- More partials inside one another than allowed -/
  | exhausted
deriving Repr, DecidableEq

/-- What a host is told while a template is rendered. -/
inductive Event (φ : Type) where
  /-- A helper or function is called -/
  | called (isBuiltin : Bool) (invocation : Invocation φ)
  /-- A body is about to be rendered -/
  | entered (request : BodyRequest φ)
  /-- The body is finished -/
  | left
  /-- A partial that is a function is called -/
  | included (context : Value φ)

structure Host (φ σ : Type) where
  note : Event φ → σ → σ
  /-- Compiles a partial, with the data tracking of the template that includes it -/
  compile : SourcePartial → Bool → σ → Except ParseError Template × σ

/-- A computation within a host. -/
def Run (σ α : Type) := σ → Outcome α × σ

namespace Run

variable {σ α β φ : Type}

def pure (result : α) : Run σ α := fun state => (.done result, state)

def bind (run : Run σ α) (next : α → Run σ β) : Run σ β := fun state =>
  match run state with
  | (.done result, state) => next result state
  | (.failed error, state) => (.failed error, state)
  | (.exhausted, state) => (.exhausted, state)

instance : Monad (Run σ) where
  pure := pure
  bind := bind

def fail (error : RenderError) : Run σ α := fun state => (.failed error, state)

def exhausted : Run σ α := fun state => (.exhausted, state)

def ofExcept : Except RenderError α → Run σ α
  | .ok result => pure result
  | .error error => fail error

def note (host : Host φ σ) (event : Event φ) : Run σ Unit := fun state =>
  (.done (), host.note event state)

def compile (host : Host φ σ) (source : SourcePartial) (trackData : Bool) : Run σ Template := fun state =>
  match host.compile source trackData state with
  | (.ok template, state) => (.done template, state)
  | (.error error, state) => (.failed (.unparsable error), state)

/-- The outcome of a run as a result of its own, so that a failure can be answered. -/
def attempt (run : Run σ α) : Run σ (Except RenderError α) := fun state =>
  match run state with
  | (.done result, state) => (.done (.ok result), state)
  | (.failed error, state) => (.done (.error error), state)
  | (.exhausted, state) => (.exhausted, state)

end Run

end Stencil
