import Stencil.Render.Error
import Stencil.Value.Basic

/-!
# What a helper does

A helper computes a result, fails, or asks for a body of its block to be rendered and goes on with
the answer. An action is the tree of these possibilities, so each run of a helper asks a finite
number of times. A helper may go on after a body that failed.
-/

namespace Stencil

/-- The request to render a body of a block. What is not given stays as it is where the block
stands. -/
structure BodyRequest (φ : Type) where
  /-- Whether the inverse body is asked for -/
  inverse : Bool
  context : Option (Value φ) := none
  data : Option (Table (Value φ)) := none

inductive Action (φ α : Type) where
  | done (result : α)
  | fail (error : RenderError)
  | body (request : BodyRequest φ) (next : Except RenderError String → Action φ α)

namespace Action

variable {φ α β : Type}

def bind : Action φ α → (α → Action φ β) → Action φ β
  | .done result, next => next result
  | .fail error, _ => .fail error
  | .body request answered, next => .body request fun answer => (answered answer).bind next

instance : Monad (Action φ) where
  pure := .done
  bind := bind

def recover : Action φ α → (RenderError → Action φ α) → Action φ α
  | .done result, _ => .done result
  | .fail error, handler => handler error
  | .body request answered, handler => .body request fun answer => (answered answer).recover handler

def ofExcept : Except RenderError α → Action φ α
  | .ok result => .done result
  | .error error => .fail error

/-- Asks for a body and fails if it does. -/
def render (request : BodyRequest φ) : Action φ String :=
  .body request ofExcept

def renderBlock (context : Option (Value φ) := none) : Action φ String :=
  render { inverse := false, context }

def renderInverse : Action φ String :=
  render { inverse := true }

/-- The result of an action outside any block, where every body is empty. -/
def alone : Action φ α → Except RenderError α
  | .done result => .ok result
  | .fail error => .error error
  | .body _ next => alone (next (.ok ""))

end Action

end Stencil
