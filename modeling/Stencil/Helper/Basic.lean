import Stencil.Helper.Action
import Stencil.Template.Options

/-!
# Helpers

A helper is called by a tag. It sees the parameters with their values, the named arguments, the
context and the data frame of the place where the tag stands, and whether the tag is a block.
Functions among the values are called in the same way.
-/

namespace Stencil

structure Invocation (φ : Type) where
  /-- The name as it is written in the tag -/
  name : String
  params : List (Value φ)
  hash : Table (Value φ)
  /-- Where each parameter would have been looked up, if parameters are passed as their text -/
  contexts : List (Value φ)
  current : Value φ
  /-- The data frame, if the template tracks it -/
  data : Option (Table (Value φ))
  isBlock : Bool
  hasInverse : Bool

/-- Handles of functions that can be called. -/
class Callable (φ : Type) where
  call : φ → Invocation φ → Action φ (Value φ)

inductive Helper (φ : Type) where
  | builtin (builtin : Builtin)
  | custom (run : Invocation φ → Action φ (Value φ))

namespace Builtin

variable {φ : Type}

def renderEach : List (Value φ) → Action φ String
  | [] => pure ""
  | item :: items => do
    let text ← Action.renderBlock (some item)
    return text ++ (← renderEach items)

/-- The block once for every item, or its inverse if there are none. -/
def renderItems : List (Value φ) → Action φ String
  | [] => Action.renderInverse
  | items => renderEach items

/-- The block of a section. An array repeats it, any other value that counts as true becomes its
context, and the rest selects the inverse. -/
def renderSection (value : Value φ) : Action φ String :=
  match value with
  | .array items => renderItems items
  | _ => if value.isTruthy then Action.renderBlock (some value) else Action.renderInverse

/-- What the helpers of the library do with their first parameter. -/
def run (builtin : Builtin) (invocation : Invocation φ) : Action φ (Value φ) :=
  let first := invocation.params.headD .null
  match builtin with
  | .ifHelper => .string <$> if first.isTruthy then Action.renderBlock else Action.renderInverse
  | .unlessHelper => .string <$> if first.isTruthy then Action.renderInverse else Action.renderBlock
  | .eachHelper =>
    .string <$> match first with
      | .array items => renderItems items
      | .object members => renderItems (members.map Prod.snd)
      | _ => Action.renderInverse
  | .withHelper =>
    .string <$> if first.isNull then Action.renderInverse else Action.renderBlock (some first)
  | .helperMissing => pure .null
  | .blockHelperMissing => .string <$> renderSection first

end Builtin

namespace Helper

variable {φ : Type}

def run : Helper φ → Invocation φ → Action φ (Value φ)
  | .builtin known => known.run
  | .custom run => run

def isBuiltin : Helper φ → Bool
  | .builtin _ => true
  | .custom _ => false

def ofFunction [Callable φ] (handle : φ) : Helper φ :=
  .custom (Callable.call handle)

def builtins : Table (Helper φ) :=
  Table.ofPairs (Builtin.all.map fun builtin => (builtin.name, .builtin builtin))

end Helper

end Stencil
