import Stencil.Helper.Basic

/-!
# Scripts

A script describes a helper, a function or a partial as data. It has one expression for each thing
that a helper can see or do. A function among the values is a closure, which is a script with a
number of its own; two closures are the same if their numbers are.
-/

namespace Stencil

mutual

inductive Script where
  | constant (value : Value Closure)
  /-- A parameter by its position -/
  | param (index : Nat)
  | params
  | paramCount
  /-- A named argument -/
  | argument (name : String)
  | arguments
  | contexts
  | current
  | tagName
  /-- A member of the data frame -/
  | data (name : String)
  | frame
  | isBlock
  | hasInverse
  /-- What `map` or `attempt` binds -/
  | item
  | get (value name : Script)
  | concat (parts : List Script)
  | list (items : List Script)
  | object (members : List (String × Script))
  | safe (text : Script)
  | escape (text : Script)
  | escapeValue (value : Script)
  | truthy (value : Script)
  | choose (condition yes no : Script)
  | map (items body : Script)
  | join (items : Script)
  /-- A body of the block, with the context and the data frame to render it with -/
  | body (inverse : Bool) (context data : Option Script)
  | call (builtin : Builtin) (params : List Script)
  | fail (message : Script)
  | attempt (first second : Script)
  | describe

inductive Closure where
  | mk (number : Nat) (script : Script)

end

instance : Inhabited Closure := ⟨.mk 0 .params⟩

def Closure.number : Closure → Nat
  | .mk number _ => number

def Closure.script : Closure → Script
  | .mk _ script => script

instance : BEq Closure where
  beq left right := left.number == right.number

end Stencil
