import Stencil.Markup.Error
import Stencil.Text.Quoted
import Stencil.Text.Scan

/-!
# Segments of a template

A template is a row of segments: plain text, comments and tags. A tag starts with two braces and a
marker that says what kind of tag it is, and ends with two braces, or three if it started with
three. A closing marker inside a quoted string does not end the tag, as long as the string itself is
closed somewhere in the template. The segments of a template, written one after another, are the
template.
-/

namespace Stencil

/-- The kinds of tags, told apart by what follows the two opening braces. -/
inductive TagKind where
  /-- No marker: a value, escaped -/
  | escaped
  /-- A third brace: a value as it is -/
  | unescaped
  /-- An ampersand: a value as it is -/
  | ampersand
  /-- A number sign: the start of a block -/
  | block
  /-- A caret: the start of an inverted block, or the marker inside a block -/
  | inverse
  /-- A slash: the end of a block -/
  | endBlock
  /-- A greater-than sign: a partial -/
  | inclusion
deriving Repr, DecidableEq

/-- The characters between the two opening braces and the body. -/
def TagKind.marker : TagKind → List Char
  | .escaped => []
  | .unescaped => ['{']
  | .ampersand => ['&']
  | .block => ['#']
  | .inverse => ['^']
  | .endBlock => ['/']
  | .inclusion => ['>']

def TagKind.opener (kind : TagKind) : List Char :=
  '{' :: '{' :: kind.marker

def TagKind.closer : TagKind → List Char
  | .unescaped => ['}', '}', '}']
  | _ => ['}', '}']

/-- The kind of a tag and the start of its body, from what follows the two opening braces. -/
def TagKind.ofText : List Char → TagKind × List Char
  | '{' :: body => (.unescaped, body)
  | '&' :: body => (.ampersand, body)
  | '#' :: body => (.block, body)
  | '^' :: body => (.inverse, body)
  | '/' :: body => (.endBlock, body)
  | '>' :: body => (.inclusion, body)
  | body => (.escaped, body)

inductive Segment where
  | text (content : List Char)
  /-- A comment with what stands between its exclamation mark and its two closing braces -/
  | comment (body : List Char)
  | tag (kind : TagKind) (body : List Char)
deriving Repr, DecidableEq

def Segment.raw : Segment → List Char
  | .text content => content
  | .comment body => ['{', '{', '!'] ++ body ++ ['}', '}']
  | .tag kind body => kind.opener ++ body ++ kind.closer

/-- The text up to the first place where a tag could start. -/
def textBeforeTag : List Char → List Char
  | [] => []
  | char :: rest =>
    if char = '{' ∧ rest.head? = some '{' then [] else char :: textBeforeTag rest

/-- The text before the first occurrence of a marker, or nothing if it does not occur. -/
def textBefore (marker : List Char) : List Char → Option (List Char)
  | [] => none
  | char :: rest =>
    if marker.isPrefixOf (char :: rest) then some []
    else (textBefore marker rest).map (char :: ·)

/-- The length of a quoted string that starts a text, with both quotes, or zero if none does. -/
def quotedLength : List Char → Nat
  | '"' :: rest =>
    match quotedContent false rest with
    | some content => content.length + 2
    | none => 0
  | _ => 0

/-- The body of a tag: the text before the first closing marker that is not inside a quoted string.
The count says how many characters of a quoted string are still ahead. -/
def bodyBefore (closer : List Char) : Nat → List Char → Option (List Char)
  | _, [] => none
  | inside + 1, char :: rest => (bodyBefore closer inside rest).map (char :: ·)
  | 0, char :: rest =>
    match quotedLength (char :: rest) with
    | inside + 1 => (bodyBefore closer inside rest).map (char :: ·)
    | 0 =>
      if closer.isPrefixOf (char :: rest) then some []
      else (bodyBefore closer 0 rest).map (char :: ·)

/-- The body of a comment. If it starts with two dashes it also ends with two, which may be the same
ones. -/
def commentBody (text : List Char) : Option (List Char) :=
  if ['-', '-'].isPrefixOf text then (textBefore ['-', '-', '}', '}'] text).map (· ++ ['-', '-'])
  else textBefore ['}', '}'] text

/-- The comment or tag that starts with two braces, read from what follows them. -/
def Segment.ofTag? (text : List Char) : Option Segment :=
  match text with
  | '!' :: body => (commentBody body).map .comment
  | _ =>
    let (kind, body) := TagKind.ofText text
    (bodyBefore kind.closer 0 body).map (.tag kind)

/-- Reads the segment at a place. The only fault is a comment or tag without an end. -/
def Segment.step : ScanStep Fault Segment := fun place char rest =>
  if char = '{' ∧ rest.head? = some '{' then
    match Segment.ofTag? rest.tail with
    | some segment => .ok (some segment, segment.raw.length - 1)
    | none => .error ⟨.unterminatedTag, place⟩
  else
    .ok (some (.text (char :: textBeforeTag rest)), (textBeforeTag rest).length)

def segments (source : List Char) : Scanned Fault Segment :=
  scan Segment.step 0 0 source

end Stencil
