import Stencil.Markup.Node
import Stencil.Template.Options

/-!
# Compiled templates

A compiled template is a list of operations in which it is settled how each name is looked up. A
name that is not simple only ever names a property. Of the simple names, those with arguments call
helpers, and the others prefer a helper to a property; whether the helper is declared to exist is
kept.
-/

namespace Stencil

inductive Resolution where
  /-- A property of the context and nothing else -/
  | property
  /-- A helper that is declared, in a tag without arguments -/
  | known
  /-- A helper or a property, in a tag without arguments -/
  | ambiguous
  /-- A helper, in a tag with arguments -/
  | helper
deriving Repr, DecidableEq

inductive Param where
  | literal (literal : Literal)
  | path (path : Path)
  /-- The text of a path, and how many parents up it would have been looked up -/
  | source (text : String) (depth : Nat)
deriving Repr, DecidableEq

/-- A tag that names something. -/
structure Invocable where
  /-- The name as it is written -/
  name : String
  path : Path
  resolution : Resolution
  params : List Param
  hash : Table Param
deriving Repr, DecidableEq

inductive Op where
  | content (text : String)
  | literal (literal : Literal) (escape : Bool)
  | expression (call : Invocable) (escape : Bool)
  | block (call : Invocable) (program : List Op) (inverse : Option (List Op))
  | inclusion (name : String) (context : Option Param)
deriving Repr

structure Template where
  ops : List Op
  options : CompileOptions
deriving Repr

end Stencil
