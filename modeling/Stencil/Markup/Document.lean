import Stencil.Markup.Call
import Stencil.Markup.Segment

/-!
# Parsing a template

A template is read segment by segment. The blocks that are still open stand on a stack, and each
node goes to the innermost of them, or to the template itself if there is none. The tag that ends a
block has to repeat the head of the innermost open block as it is written.
-/

namespace Stencil

structure OpenBlock where
  call : Call
  /-- The head as it is written -/
  name : String
  /-- Whether the block started as an inverted one -/
  inverted : Bool
  /-- Where the tag that started it stands -/
  place : Nat
  program : List Node
  /-- The nodes behind the inverse marker, if there was one -/
  inverse : Option (List Node)

namespace OpenBlock

def add (block : OpenBlock) (node : Node) : OpenBlock :=
  match block.inverse with
  | some inverse => { block with inverse := some (inverse ++ [node]) }
  | none => { block with program := block.program ++ [node] }

/-- The finished block. An inverted block has its two parts the other way round, and always an
inverse part. -/
def toNode (block : OpenBlock) : Node :=
  if block.inverted then .block block.call (block.inverse.getD []) (some block.program)
  else .block block.call block.program block.inverse

end OpenBlock

/-- The nodes read so far, outside any open block, and the open blocks, innermost first. -/
structure Draft where
  nodes : List Node := []
  blocks : List OpenBlock := []

namespace Draft

def add (draft : Draft) (node : Node) : Draft :=
  match draft.blocks with
  | block :: outer => { draft with blocks := block.add node :: outer }
  | [] => { draft with nodes := draft.nodes ++ [node] }

def startInverse (draft : Draft) (place : Nat) : Except Fault Draft :=
  match draft.blocks with
  | block :: outer =>
    if block.inverse.isNone then
      .ok { draft with blocks := { block with inverse := some [] } :: outer }
    else .error ⟨.misplacedInverse, place⟩
  | [] => .error ⟨.misplacedInverse, place⟩

/-- Opens a block. Its head has to be a path. -/
def openBlock (draft : Draft) (inverted : Bool) (place bodyPlace : Nat) (body : List Char) :
    Except Fault Draft := do
  let call ← Call.ofBody bodyPlace body
  match call.head with
  | .path path =>
    .ok { draft with blocks := ⟨call, path.text, inverted, place, [], none⟩ :: draft.blocks }
  | .literal _ => .error ⟨.unexpectedToken (String.ofList (trim body)), bodyPlace⟩

def closeBlock (draft : Draft) (place : Nat) (name : String) : Except Fault Draft :=
  match draft.blocks with
  | [] => .error ⟨.unexpectedClose name, place⟩
  | block :: outer =>
    if block.name = name then .ok (add { draft with blocks := outer } block.toNode)
    else .error ⟨.blockMismatch block.name name, place⟩

/-- The text of a comment, without the dashes of the long form. -/
def commentText : List Char → List Char
  | '-' :: '-' :: rest => rest.take (rest.length - 2)
  | body => body

def tag (draft : Draft) (place : Nat) (kind : TagKind) (body : List Char) : Except Fault Draft :=
  let bodyPlace := place + byteSize kind.opener
  let mustache (escaped : Bool) : Except Fault Draft :=
    (Call.ofBody bodyPlace body).map fun call => draft.add (.mustache call escaped)
  match kind with
  | .escaped =>
    if trim body = ['e', 'l', 's', 'e'] then draft.startInverse place else mustache true
  | .unescaped => mustache false
  | .ampersand => mustache false
  | .inverse =>
    if trim body = [] then draft.startInverse place else draft.openBlock true place bodyPlace body
  | .block => draft.openBlock false place bodyPlace body
  | .endBlock => draft.closeBlock place (String.ofList (trim body))
  | .inclusion => (Node.inclusionOfBody bodyPlace body).map draft.add

def segment (draft : Draft) (place : Nat) : Segment → Except Fault Draft
  | .text content => .ok (draft.add (.content (String.ofList content)))
  | .comment body => .ok (draft.add (.comment (String.ofList (commentText body))))
  | .tag kind body => draft.tag place kind body

def segments : Nat → Draft → List Segment → Except Fault Draft
  | _, draft, [] => .ok draft
  | place, draft, next :: rest => do
    segments (place + byteSize next.raw) (← draft.segment place next) rest

def finish (draft : Draft) : Except Fault (List Node) :=
  match draft.blocks with
  | block :: _ => .error ⟨.unclosedBlock block.name, block.place⟩
  | [] => .ok draft.nodes

end Draft

/-- Reads a template, up to the excerpt of its error. A comment or tag without an end counts before
any other fault. -/
def parseText (source : List Char) : Except Fault (List Node) := do
  let segments ← (segments source).all
  (← Draft.segments 0 {} segments).finish

def parse (source : String) : Except ParseError (List Node) :=
  (parseText source.toList).mapError (·.inSource source.toList)

end Stencil
