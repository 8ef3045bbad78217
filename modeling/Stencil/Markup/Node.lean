import Stencil.Markup.Path
import Stencil.Table
import Stencil.Text.Bytes

/-!
# Template trees

A parsed template is a list of nodes. Tags that name something hold a call, which is a head with its
parameters and its named arguments. A block holds the nodes of its main part and, if it has one, of
its inverse part.
-/

namespace Stencil

inductive Literal where
  /-- A string, without its quotes -/
  | string (content : String)
  /-- A number as it is written -/
  | number (text : String)
  | boolean (value : Bool)
deriving Repr, DecidableEq

/-- A parameter, a named argument or the head of a call. -/
inductive Expr where
  | literal (literal : Literal)
  | path (path : Path)
deriving Repr, DecidableEq

/-- The inside of a tag: a head, parameters and named arguments. -/
structure Call where
  head : Expr
  params : List Expr
  hash : Table Expr
  /-- Where the body of the tag stands -/
  span : Span
deriving Repr, DecidableEq

def Call.hasArguments (call : Call) : Bool :=
  !call.params.isEmpty || !call.hash.isEmpty

inductive Node where
  | content (text : String)
  | comment (text : String)
  /-- A tag for a value, escaped or as it is -/
  | mustache (call : Call) (escaped : Bool)
  | block (call : Call) (program : List Node) (inverse : Option (List Node))
  | inclusion (name : String) (context : Option Expr)
deriving Repr

end Stencil
