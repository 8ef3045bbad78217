import Stencil.Markup.Error
import Stencil.Text.Blank
import Stencil.Text.Quoted
import Stencil.Text.Scan

/-!
# Words of a tag

The body of a tag is a row of words with blanks between them. A word is a bare word, a quoted
string, or either of the two behind a key and an equals sign. Quotes are only allowed at the two
ends of a string, so the word that holds one anywhere else is malformed.
-/

namespace Stencil

structure Word where
  /-- The key of a pair -/
  key : Option String
  /-- The bare word, or the content of a quoted string as it is written -/
  value : String
  quoted : Bool
  /-- The place of the value, with its opening quote -/
  place : Nat
deriving Repr, DecidableEq

namespace Word

def raw (word : Word) : List Char :=
  (match word.key with
    | some key => key.toList ++ ['=']
    | none => []) ++
  if word.quoted then '"' :: word.value.toList ++ ['"'] else word.value.toList

/-- A character that can stand in a key or in a bare word without one. -/
def isPlain (char : Char) : Bool :=
  !isBlank char && char != '=' && char != '"'

/-- Reads a quoted value from what follows its opening quote, which stands at a place. -/
def readQuoted (key : Option String) (place : Nat) (text : List Char) : Except Fault Word :=
  match quotedContent false text with
  | none => .error ⟨.malformedLiteral, place⟩
  | some content =>
    match (text.drop (content.length + 1)).head? with
    | some char =>
      if isBlank char then .ok ⟨key, String.ofList content, true, place⟩
      else .error ⟨.malformedLiteral, place + byteSize content + 2⟩
    | none => .ok ⟨key, String.ofList content, true, place⟩

/-- Reads a bare value, which stands at a place and goes on to the next blank. -/
def readBare (key : Option String) (place : Nat) (text : List Char) : Except Fault Word :=
  let value := text.takeWhile (!isBlank ·)
  if '"' ∈ value then .error ⟨.malformedLiteral, place + byteSize (value.takeWhile (· != '"'))⟩
  else if value = [] then .error ⟨.unexpectedToken (key.getD "" ++ "="), place⟩
  else if value.head? = some '=' then .error ⟨.unexpectedToken (String.ofList value), place⟩
  else .ok ⟨key, String.ofList value, false, place⟩

def readValue (key : Option String) (place : Nat) : List Char → Except Fault Word
  | '"' :: text => readQuoted key place text
  | text => readBare key place text

/-- Reads the word that starts a text, which stands at a place and has no blank in front. -/
def read (place : Nat) (text : List Char) : Except Fault Word :=
  let plain := text.takeWhile isPlain
  match text.dropWhile isPlain with
  | '=' :: rest =>
    if plain = [] then
      .error ⟨.unexpectedToken (String.ofList (text.takeWhile (!isBlank ·))), place⟩
    else readValue (some (String.ofList plain)) (place + byteSize plain + 1) rest
  | '"' :: rest =>
    if plain = [] then readQuoted none place rest
    else .error ⟨.malformedLiteral, place + byteSize plain⟩
  | _ => readBare none place text

def step : ScanStep Fault Word := fun place char rest =>
  if isBlank char then .ok (none, 0)
  else (read place (char :: rest)).map fun word => (some word, word.raw.length - 1)

end Word

def words (place : Nat) (body : List Char) : Scanned Fault Word :=
  scan Word.step 0 place body

end Stencil
