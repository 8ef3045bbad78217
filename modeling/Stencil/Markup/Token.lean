import Stencil.Markup.Segment

/-!
# Tokens of a template

The flat view of the segments, with a span for each token. Text and comments are one token each; a
tag is three, its opening marker, its body and its closing marker. The spans follow one another
without a gap.
-/

namespace Stencil

inductive TokenKind where
  | text
  | comment
  | opener (tag : TagKind)
  | body
  | closer (tag : TagKind)
deriving Repr, DecidableEq

structure Token where
  kind : TokenKind
  span : Span
deriving Repr, DecidableEq

def Segment.pieces : Segment → List (TokenKind × List Char)
  | .text content => [(.text, content)]
  | .comment body => [(.comment, (Segment.comment body).raw)]
  | .tag kind body => [(.opener kind, kind.opener), (.body, body), (.closer kind, kind.closer)]

/-- Gives each piece the span it has when the pieces follow one another from a place. -/
def Token.placed : Nat → List (TokenKind × List Char) → List Token
  | _, [] => []
  | place, (kind, characters) :: rest =>
    ⟨kind, ⟨place, place + byteSize characters⟩⟩ :: Token.placed (place + byteSize characters) rest

/-- The tokens of a template, or the error for its first comment or tag without an end. -/
def tokens (source : String) : Except ParseError (List Token) :=
  match (segments source.toList).all with
  | .error fault => .error (fault.inSource source.toList)
  | .ok segments => .ok (Token.placed 0 (segments.flatMap Segment.pieces))

end Stencil
