import Stencil.Text.Pieces

/-!
# Paths

A path names a value from where a tag stands: some steps to the parents, perhaps the current context
itself, and then the members to descend through. Its segments are separated by a slash or a dot.
-/

namespace Stencil

structure Path where
  /-- The path as it is written -/
  text : String
  /-- The number of steps to the parents -/
  depth : Nat
  /-- Whether the path names the current context explicitly -/
  isThis : Bool
  segments : List String
deriving Repr, DecidableEq

namespace Path

/-- A single name without any scope, which is the only form that can name a helper. -/
def isSimple (path : Path) : Bool :=
  path.depth == 0 && !path.isThis && path.segments.length == 1

def dotted (path : Path) : String :=
  String.intercalate "." path.segments

def isSeparator (char : Char) : Bool :=
  char == '/' || char == '.'

/-- Takes the steps to the parents off a path. -/
def splitParents : List Char → Nat × List Char
  | '.' :: '.' :: '/' :: rest => ((splitParents rest).1 + 1, (splitParents rest).2)
  | ['.', '.'] => (1, [])
  | rest => (0, rest)

/-- Takes the mark of the current context off a path. -/
def splitThis : List Char → Bool × List Char
  | ['.'] => (true, [])
  | ['t', 'h', 'i', 's'] => (true, [])
  | '.' :: '/' :: rest => (true, rest)
  | 't' :: 'h' :: 'i' :: 's' :: '/' :: rest => (true, rest)
  | 't' :: 'h' :: 'i' :: 's' :: '.' :: rest => (true, rest)
  | rest => (false, rest)

/-- The path that a word denotes. A segment is never empty and never the mark of the current
context, and a path that goes nowhere is none. -/
def ofText? (text : List Char) : Option Path :=
  let (depth, rest) := splitParents text
  let (isThis, rest) := splitThis rest
  let segments := if rest = [] then [] else pieces isSeparator rest
  if [] ∈ segments ∨ ['t', 'h', 'i', 's'] ∈ segments then none
  else if segments = [] ∧ depth = 0 ∧ isThis = false then none
  else some ⟨String.ofList text, depth, isThis, segments.map String.ofList⟩

end Path

end Stencil
