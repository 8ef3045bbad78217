/-!
# Places in a text

A place in a text is the number of UTF-8 bytes before it. A text is a list of characters, so a place
that is the size of a leading part always lies between two characters. A window of a text is made of
whole characters: those that overlap a range of bytes.
-/

namespace Stencil

/-- The number of bytes that a text takes in UTF-8. -/
def byteSize : List Char → Nat
  | [] => 0
  | char :: rest => char.utf8Size + byteSize rest

@[simp] theorem byteSize_append (left right : List Char) :
    byteSize (left ++ right) = byteSize left + byteSize right := by
  induction left with
  | nil => simp [byteSize]
  | cons char rest ih => simp [byteSize, ih, Nat.add_assoc]

theorem byteSize_eq_zero_iff {text : List Char} : byteSize text = 0 ↔ text = [] := by
  cases text with
  | nil => simp [byteSize]
  | cons char rest =>
    have hpos := char.utf8Size_pos
    simp only [byteSize, reduceCtorEq, iff_false]
    omega

theorem byteSize_pos {text : List Char} (h : text ≠ []) : 0 < byteSize text :=
  Nat.pos_of_ne_zero fun hzero => h (byteSize_eq_zero_iff.1 hzero)

/-- The characters of a text that starts at a place and that overlap the bytes from `low` up to
`high`. -/
def window (low high : Nat) : Nat → List Char → List Char
  | _, [] => []
  | start, char :: rest =>
    let stop := start + char.utf8Size
    if start < high ∧ low < stop then char :: window low high stop rest else window low high stop rest

/-- The characters of a text that starts at a place and that lie between two places. -/
def between (low high : Nat) : Nat → List Char → List Char
  | _, [] => []
  | start, char :: rest =>
    let stop := start + char.utf8Size
    if low ≤ start ∧ stop ≤ high then char :: between low high stop rest else between low high stop rest

structure Span where
  start : Nat
  stop : Nat
deriving Repr, DecidableEq, Inhabited

/-- The part of a text that a span covers. -/
def Span.slice (span : Span) (text : List Char) : List Char :=
  between span.start span.stop 0 text

end Stencil
