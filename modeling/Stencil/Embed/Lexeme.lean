import Stencil.Embed.Literal
import Stencil.Text.Blank
import Stencil.Text.Scan

/-!
# Lexemes of declarations

A declaration is read as lexemes: texts, whose content matters, other literals, words, and single
marks. Blanks and comments separate lexemes. A comment that documents something is a lexeme of its
own.
-/

namespace Stencil.Embed

inductive Lexeme where
  /-- A literal that is a text, by its content -/
  | text (content : String)
  /-- Any other literal -/
  | literal
  | word (name : String)
  | mark (char : Char)
  /-- A comment that documents what follows, or else what it stands in -/
  | remark (follows : Bool)
deriving Repr, DecidableEq

/-- What a step of the scan finds: a lexeme, if there is one, and the number of characters it takes
beyond the first. -/
abbrev LexemeFound := Option Lexeme × Nat

/-! ### Comments -/

/-- A character between lexemes. Besides the blanks, these are the two marks of direction. -/
def isGap (char : Char) : Bool :=
  isBlank char || char == '\u200e' || char == '\u200f'

/-- The length of a comment between marks, which may hold others, counted from what follows its
opening mark. The flag says whether the character before belongs to a mark already. -/
def blockLength? : Nat → Bool → List Char → Option Nat
  | _, _, [] => none
  | depth, true, _ :: rest => (blockLength? depth false rest).map (· + 1)
  | depth, false, char :: rest =>
    if char = '*' ∧ rest.head? = some '/' then
      match depth with
      | 0 => some 2
      | depth + 1 => (blockLength? depth true rest).map (· + 1)
    else if char = '/' ∧ rest.head? = some '*' then
      (blockLength? (depth + 1) true rest).map (· + 1)
    else (blockLength? depth false rest).map (· + 1)

/-- Whether a comment documents what it stands in, or what follows, by what comes after its opening
mark. The character that announces the latter is not repeated. -/
def remark? (announcer : Char) (body : List Char) : Option Lexeme :=
  if body.head? = some '!' then some (.remark false)
  else if body.head? = some announcer ∧ body[1]? ≠ some announcer then some (.remark true)
  else none

/-- Reads a comment up to the end of its line, from what follows its opening mark. In a remark, a
carriage return has to end the line. -/
def readLine? (body : List Char) : Option LexemeFound :=
  let length := (body.takeWhile (· != '\n')).length
  match remark? '/' body with
  | some remark => if returnsEndLines (body.take (length + 1)) then some (some remark, length + 1) else none
  | none => some (none, length + 1)

/-- Reads a comment between marks, from what follows its opening mark. In a remark, carriage returns
have to end lines. -/
def readBlock? (body : List Char) : Option LexemeFound := do
  let length ← blockLength? 0 false body
  match if length = 2 then none else remark? '*' body with
  | some remark =>
    if returnsEndLines (body.take (length - 2)) then return (some remark, length + 1) else none
  | none => return (none, length + 1)

/-! ### Words and marks -/

/-- Words that are never written raw. -/
def plainWords : List String :=
  ["_", "Self", "crate", "self", "super"]

/-- The word that some text starts with, and its length. A raw word starts with the letter r and a
number sign. -/
def word? (text : List Char) : Option (String × Nat) :=
  match text with
  | 'r' :: '#' :: rest => do
    let length ← wordLength? rest
    let name := String.ofList (rest.take length)
    if name ∈ plainWords then none else return ("r#" ++ name, length + 2)
  | _ => do
    let length ← wordLength? text
    return (String.ofList (text.take length), length)

/-- What announces a literal, so that no word starts with it. -/
def literalStarts : List String :=
  ["r\"", "r#\"", "r##", "b\"", "b'", "br\"", "br#", "c\"", "cr\"", "cr#"]

/-- A quote that is a mark has a word behind it, which does not end with another quote. -/
def isLabel (rest : List Char) : Bool :=
  match word? rest with
  | some (name, length) =>
    let next := rest[length]?
    next != some '\'' && (next != some '#' || name.startsWith "r#")
  | none => false

def isMark (char : Char) : Bool :=
  char ∈ ['~', '!', '@', '#', '$', '%', '^', '&', '*', '-', '=', '+', '|', ';', ':', ',', '<', '.',
    '>', '/', '?', '(', ')', '[', ']', '{', '}']

/-! ### Scanning -/

def Lexeme.find? (char : Char) (rest : List Char) : Option LexemeFound :=
  if isGap char then some (none, 0)
  else
    match char, rest with
    | '/', '/' :: body => readLine? body
    | '/', '*' :: body => readBlock? body
    | _, _ =>
      match literal? (char :: rest) with
      | some ⟨some content, length⟩ => some (some (.text content), length - 1)
      | some ⟨none, length⟩ => some (some .literal, length - 1)
      | none =>
        if isMark char || (char == '\'' && isLabel rest) then some (some (.mark char), 0)
        else if literalStarts.any fun start => start.toList.isPrefixOf (char :: rest) then none
        else (word? (char :: rest)).map fun (name, length) => (some (.word name), length - 1)

def Lexeme.step : ScanStep Unit Lexeme := fun _ char rest =>
  match Lexeme.find? char rest with
  | some found => .ok found
  | none => .error ()

/-- The lexemes of a declaration, or nothing if it is not made of lexemes. A byte order mark in
front does not count. -/
def lexemes? (source : String) : Option (List Lexeme) :=
  let text := source.toList
  let text := if text.head? = some '\ufeff' then text.tail else text
  (scan Lexeme.step 0 0 text).all.toOption

end Stencil.Embed
