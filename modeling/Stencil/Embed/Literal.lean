import Stencil.Text.Identifier

/-!
# Literals of declarations

Templates and directories of partials are declared in the source text of a program. A declaration
starts with a text, and its options can hold literals of all kinds. A text stands between double
quotes, either plain, with escapes, or raw, between as many number signs as are needed. Literals of
bytes and of text that ends with a zero are written in the same ways behind the letters b and c. Any
literal can have a suffix, which is a word right behind it.
-/

namespace Stencil.Embed

/-- A literal as it is read: its content if it is a text, and the number of its characters. -/
structure Literal where
  content : Option String
  length : Nat
deriving Repr, DecidableEq

/-- What a literal between quotes can hold. -/
inductive Alphabet where
  | text
  | bytes
  /-- Everything but the zero -/
  | nonzero
deriving Repr, DecidableEq

def Alphabet.holds (char : Char) : Alphabet → Bool
  | .text => true
  | .bytes => char.toNat < 128
  | .nonzero => char != '\x00'

/-- Whether an escape that starts with a letter can stand for a character. -/
def Alphabet.admits (letter char : Char) : Alphabet → Bool
  | .text => letter != 'x' || char.toNat < 128
  | .bytes => letter != 'u'
  | .nonzero => char != '\x00'

/-! ### Escapes -/

def hexDigit? (char : Char) : Option Nat :=
  if char.isDigit then some (char.toNat - '0'.toNat)
  else if 'a' ≤ char ∧ char ≤ 'f' then some (char.toNat - 'a'.toNat + 10)
  else if 'A' ≤ char ∧ char ≤ 'F' then some (char.toNat - 'A'.toNat + 10)
  else none

def hexValue? (digits : List Char) : Option Nat :=
  digits.foldlM (fun value digit => (hexDigit? digit).map (16 * value + ·)) 0

def charOf? (code : Nat) : Option Char :=
  if h : code.isValidChar then some (Char.ofNatAux code h) else none

/-- The character that an escape stands for, read from what follows the backslash, with the number
of characters that it takes. -/
def escape? : List Char → Option (Char × Nat)
  | 'n' :: _ => some ('\n', 1)
  | 'r' :: _ => some ('\r', 1)
  | 't' :: _ => some ('\t', 1)
  | '0' :: _ => some ('\x00', 1)
  | '\\' :: _ => some ('\\', 1)
  | '\'' :: _ => some ('\'', 1)
  | '"' :: _ => some ('"', 1)
  | 'x' :: high :: low :: _ => do return (← charOf? (← hexValue? [high, low]), 3)
  | 'u' :: '{' :: rest => do
    let source := rest.takeWhile (· != '}')
    let digits := source.filter (· != '_')
    if (rest.drop source.length).isEmpty || digits.isEmpty || 6 < digits.length
        || source.head? == some '_' then none
    else return (← charOf? (← hexValue? digits), source.length + 3)
  | _ => none

def escaped? (alphabet : Alphabet) (rest : List Char) : Option (Char × Nat) :=
  match rest, escape? rest with
  | letter :: _, some (char, taken) => if alphabet.admits letter char then some (char, taken) else none
  | _, _ => none

/-! ### Quotes -/

/-- What stands before the next double quote, as it is written. The flag says whether the next
character is guarded by a backslash. -/
def quotedSource : Bool → List Char → Option (List Char)
  | _, [] => none
  | true, char :: rest => (quotedSource false rest).map (char :: ·)
  | false, '"' :: _ => some []
  | false, char :: rest => (quotedSource (char == '\\') rest).map (char :: ·)

/-- Whether every carriage return is the start of a line ending. -/
def returnsEndLines : List Char → Bool
  | [] => true
  | char :: rest => (char != '\r' || rest.head? == some '\n') && returnsEndLines rest

/-- A character of a margin, which a backslash at the end of a line takes away. -/
def isMargin (char : Char) : Bool :=
  char == ' ' || char == '\t' || char == '\n' || char == '\r'

/-- The content of a plain literal. The count says how many characters of an escape are still ahead.
A backslash at the end of a line stands for nothing, together with the line ending and the margin
after it. A line ending of two characters stands for a line feed. -/
def unescape? (alphabet : Alphabet) : Nat → List Char → Option (List Char)
  | _, [] => some []
  | skip + 1, _ :: rest => unescape? alphabet skip rest
  | 0, '\\' :: rest =>
    if rest.head? = some '\n' ∨ rest.head? = some '\r' then
      let margin := rest.takeWhile isMargin
      if returnsEndLines margin then unescape? alphabet margin.length rest else none
    else do
      let (char, taken) ← escaped? alphabet rest
      return char :: (← unescape? alphabet taken rest)
  | 0, '\r' :: rest =>
    if rest.head? = some '\n' then unescape? alphabet 0 rest else none
  | 0, char :: rest =>
    if alphabet.holds char then (unescape? alphabet 0 rest).map (char :: ·) else none

/-- The content of a plain literal and its length, read from what follows its opening quote. -/
def plain? (alphabet : Alphabet) (rest : List Char) : Option (List Char × Nat) := do
  let source ← quotedSource false rest
  return (← unescape? alphabet 0 source, source.length + 1)

/-- The text up to a double quote with as many number signs behind it as asked. -/
def rawSource (signs : Nat) : List Char → Option (List Char)
  | [] => none
  | char :: rest =>
    if char = '"' ∧ rest.take signs = List.replicate signs '#' then some []
    else (rawSource signs rest).map (char :: ·)

/-- The content of a raw literal and its length, read from the number signs in front of its opening
quote. There are at most 255 of them. -/
def raw? (alphabet : Alphabet) (rest : List Char) : Option (List Char × Nat) :=
  let signs := (rest.takeWhile (· == '#')).length
  match rest.drop signs with
  | '"' :: body => do
    let content ← rawSource signs body
    if signs ≤ 255 && returnsEndLines content && content.all (alphabet.holds ·) then
      return (content, 2 * signs + content.length + 2)
    else none
  | _ => none

/-- The length of a literal of one character, read from what follows its opening quote. -/
def character? (alphabet : Alphabet) : List Char → Option Nat
  | '\\' :: rest => do
    let (_, taken) ← escaped? alphabet rest
    if rest[taken]? = some '\'' then return taken + 2 else none
  | char :: '\'' :: _ => if alphabet.holds char then some 2 else none
  | _ => none

/-! ### Numerals -/

/-- The length of the word that some text starts with. -/
def wordLength? : List Char → Option Nat
  | char :: rest => if startsWord char then some ((rest.takeWhile continuesWord).length + 1) else none
  | [] => none

/-- The length of some text up to a place, with the suffix there. -/
def withSuffix (text : List Char) (length : Nat) : Nat :=
  length + (wordLength? (text.drop length)).getD 0

/-- The length of a numeral with its suffix. What goes on a word can only follow a numeral if it
starts a word. -/
def endNumeral? (text : List Char) (length : Nat) : Option Nat :=
  let length := withSuffix text length
  if (text.drop length).head?.any continuesWord then none else some length

/-- The length of a row of digits to a base, where underscores can stand. The flag says whether
there was a digit before. -/
def digitsLength? (base : Nat) : Bool → List Char → Option Nat
  | found, [] => if found then some 0 else none
  | found, char :: rest =>
    if char = '_' then
      if found || base != 10 then (digitsLength? base found rest).map (· + 1) else none
    else
      match hexDigit? char with
      | some value =>
        if value < base then (digitsLength? base true rest).map (· + 1)
        else if char.isDigit then none
        else if found then some 0 else none
      | none => if found then some 0 else none

def whole? (text : List Char) : Option Nat :=
  match text with
  | '0' :: 'x' :: rest => (digitsLength? 16 false rest).bind fun length => endNumeral? text (length + 2)
  | '0' :: 'o' :: rest => (digitsLength? 8 false rest).bind fun length => endNumeral? text (length + 2)
  | '0' :: 'b' :: rest => (digitsLength? 2 false rest).bind fun length => endNumeral? text (length + 2)
  | _ => (digitsLength? 10 false text).bind (endNumeral? text)

/-- The length of an exponent, without the letter in front. The flags say whether there was a sign
and whether there was a digit before. -/
def exponentLength? : Bool → Bool → List Char → Option Nat
  | _, found, [] => if found then some 0 else none
  | signed, found, char :: rest =>
    if char.isDigit then (exponentLength? signed true rest).map (· + 1)
    else if char = '_' then (exponentLength? signed found rest).map (· + 1)
    else if found then some 0
    else if (char = '+' ∨ char = '-') ∧ !signed then (exponentLength? true found rest).map (· + 1)
    else none

/-- The length of the part of a numeral from the letter of an exponent on. -/
def exponentPart? : List Char → Option Nat
  | char :: rest =>
    if char = 'e' ∨ char = 'E' then (exponentLength? false false rest).map (· + 1) else none
  | [] => none

/-- The length of a numeral with a point, an exponent or both. A point with a second one or a word
behind it does not belong to the numeral. -/
def fractional? (text : List Char) : Option Nat :=
  let isDecimal := fun char : Char => char.isDigit || char == '_'
  let whole := (text.takeWhile isDecimal).length
  let length? :=
    match text.drop whole with
    | '.' :: rest =>
      if rest.head?.any fun char => char == '.' || startsWord char then none
      else
        let digits := (rest.takeWhile isDecimal).length
        some (whole + 1 + digits + (exponentPart? (rest.drop digits)).getD 0)
    | rest => (exponentPart? rest).map (whole + ·)
  length?.bind (endNumeral? text)

/-! ### All literals -/

/-- The literal that some text starts with, if it starts with one. -/
def literal? (text : List Char) : Option Literal :=
  let read := fun (start : Nat) (found : Option (List Char × Nat)) =>
    found.map fun (content, length) => (⟨some (String.ofList content), withSuffix text (length + start)⟩ : Literal)
  let skip := fun (start : Nat) (found : Option Nat) =>
    found.map fun length => (⟨none, withSuffix text (length + start)⟩ : Literal)
  match text with
  | '"' :: rest => read 1 (plain? .text rest)
  | 'r' :: rest => read 1 (raw? .text rest)
  | 'b' :: '"' :: rest => skip 2 ((plain? .bytes rest).map (·.2))
  | 'b' :: 'r' :: rest => skip 2 ((raw? .bytes rest).map (·.2))
  | 'b' :: '\'' :: rest => skip 2 (character? .bytes rest)
  | 'c' :: '"' :: rest => skip 2 ((plain? .nonzero rest).map (·.2))
  | 'c' :: 'r' :: rest => skip 2 ((raw? .nonzero rest).map (·.2))
  | '\'' :: rest => skip 1 (character? .text rest)
  | char :: _ =>
    if char.isDigit then ((fractional? text).orElse fun _ => whole? text).map (⟨none, ·⟩) else none
  | [] => none

end Stencil.Embed
