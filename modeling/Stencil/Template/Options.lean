import Stencil.Value.Basic

/-!
# Compile options

What is fixed when a template is compiled: the helpers that are known to exist, whether only those
may be called, whether parameters are passed as their text, and whether the template tracks the data
frame. The helpers that come with the library are known unless they are declared not to be.
-/

namespace Stencil

inductive Builtin where
  | ifHelper
  | unlessHelper
  | eachHelper
  | withHelper
  | helperMissing
  | blockHelperMissing
deriving Repr, DecidableEq

namespace Builtin

def name : Builtin → String
  | .ifHelper => "if"
  | .unlessHelper => "unless"
  | .eachHelper => "each"
  | .withHelper => "with"
  | .helperMissing => "helperMissing"
  | .blockHelperMissing => "blockHelperMissing"

def all : List Builtin :=
  [.ifHelper, .unlessHelper, .eachHelper, .withHelper, .helperMissing, .blockHelperMissing]

def ofName? (name : String) : Option Builtin :=
  all.find? fun builtin => builtin.name == name

end Builtin

structure CompileOptions where
  /-- Helpers that are declared known, or not known -/
  knownHelpers : Table Bool := []
  /-- Whether other names never call helpers -/
  knownHelpersOnly : Bool := false
  /-- Whether parameters that are paths are passed as their text -/
  stringParams : Bool := false
  /-- Whether the template tracks the data frame -/
  data : Bool := false
deriving Repr, DecidableEq

namespace CompileOptions

def declare (options : CompileOptions) (name : String) (known : Bool) : CompileOptions :=
  { options with knownHelpers := options.knownHelpers.insert name known }

/-- Whether a helper of this name is known to exist. -/
def isKnown (options : CompileOptions) (name : String) : Bool :=
  (options.knownHelpers.find? name).getD (Builtin.ofName? name).isSome

/-! ### Options as data -/

variable {φ : Type}

def readFlag? : Value φ → Option Bool
  | .boolean value => some value
  | _ => none

def readKnown? : Value φ → Option (Table Bool)
  | .object members => members.mapM fun member => (readFlag? member.2).map (member.1, ·)
  | _ => none

/-- Reads a field, which keeps its default if it is absent. -/
def field? {α : Type} (read : Value φ → Option α) (default : α) : Option (Value φ) → Option α
  | some value => read value
  | none => some default

def ofFields? (knownHelpers knownHelpersOnly stringParams data : Option (Value φ)) :
    Option CompileOptions := do
  let knownHelpers ← field? readKnown? [] knownHelpers
  let knownHelpersOnly ← field? readFlag? false knownHelpersOnly
  let stringParams ← field? readFlag? false stringParams
  let data ← field? readFlag? false data
  return { knownHelpers, knownHelpersOnly, stringParams, data }

/-- Reads options from an object with their names, or from an array in their order. Other names are
ignored, more items than fields are not, and a field of another type makes the options invalid. -/
def ofValue? : Value φ → Option CompileOptions
  | .object members =>
    ofFields? (Table.find? "knownHelpers" members) (Table.find? "knownHelpersOnly" members)
      (Table.find? "stringParams" members) (Table.find? "data" members)
  | .array items => if items.length ≤ 4 then ofFields? items[0]? items[1]? items[2]? items[3]? else none
  | _ => none

end CompileOptions

end Stencil
