import Stencil.Text.Ranges

/-!
# Blank characters

Words of a tag are separated by blanks, and the body of a tag is read without the blanks around it.
A blank is a character with the Unicode property White_Space, which has twenty-five members.
-/

namespace Stencil

/-- The code points with the property White_Space, as closed ranges. -/
def blankRanges : CodeRanges where
  ranges :=
    [(0x09, 0x0d), (0x20, 0x20), (0x85, 0x85), (0xa0, 0xa0), (0x1680, 0x1680), (0x2000, 0x200a),
      (0x2028, 0x2029), (0x202f, 0x202f), (0x205f, 0x205f), (0x3000, 0x3000)]
  apart := by decide +kernel

def isBlank (char : Char) : Bool :=
  blankRanges.covers char

def trim (text : List Char) : List Char :=
  ((text.dropWhile isBlank).reverse.dropWhile isBlank).reverse

end Stencil
