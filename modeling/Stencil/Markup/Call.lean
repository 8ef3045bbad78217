import Stencil.Markup.Node
import Stencil.Markup.Word

/-!
# Reading calls

The first word of a tag is the head of a call, the other words are its arguments: parameters first,
then pairs of a key and a value. A literal is a complete tag by itself and takes no arguments.
-/

namespace Stencil

/-- Digits with an optional minus sign in front and an optional fraction behind, which is how a
number is written. -/
def isNumeral (text : List Char) : Bool :=
  let digits := match text with
    | '-' :: rest => rest
    | _ => text
  let whole := digits.takeWhile Char.isDigit
  !whole.isEmpty &&
    match digits.dropWhile Char.isDigit with
    | [] => true
    | '.' :: fraction => !fraction.isEmpty && fraction.all Char.isDigit
    | _ => false

/-- What a word denotes, its key apart. -/
def Expr.ofWord (word : Word) : Except Fault Expr :=
  if word.quoted then .ok (.literal (.string (String.ofList (unquote word.value.toList))))
  else if word.value = "true" then .ok (.literal (.boolean true))
  else if word.value = "false" then .ok (.literal (.boolean false))
  else if isNumeral word.value.toList then .ok (.literal (.number word.value))
  else match Path.ofText? word.value.toList with
    | some found => .ok (.path found)
    | none => .error ⟨.invalidPath word.value, word.place⟩

def Expr.isLiteral : Expr → Bool
  | .literal _ => true
  | .path _ => false

namespace Call

/-- Adds a word to a call. A parameter cannot stand behind a pair, and a key that comes again takes
the new value. -/
def addWord (call : Call) (word : Word) : Except Fault Call :=
  match word.key with
  | some key => do
    let value ← Expr.ofWord word
    return { call with hash := call.hash.insert key value }
  | none =>
    if call.hash.isEmpty then do
      let value ← Expr.ofWord word
      return { call with params := call.params ++ [value] }
    else .error ⟨.unexpectedToken word.value, word.place⟩

def ofBody (place : Nat) (body : List Char) : Except Fault Call := do
  match ← (words place body).next with
  | none => .error ⟨.emptyTag, place⟩
  | some (first, others) =>
    match first.key with
    | some key => .error ⟨.unexpectedToken (key ++ "="), first.place⟩
    | none =>
      let head ← Expr.ofWord first
      let call ← others.items.foldlM addWord ⟨head, [], [], ⟨place, place + byteSize body⟩⟩
      if let some fault := others.failure then .error fault
      else if call.head.isLiteral && call.hasArguments then
        .error ⟨.unexpectedToken (String.ofList (trim body)), place⟩
      else .ok call

end Call

/-- Reads the body of a partial tag: a name, which is the word as it is written, and perhaps a
context. -/
def Node.inclusionOfBody (place : Nat) (body : List Char) : Except Fault Node := do
  let refuse (word : Word) : Except Fault Node := .error ⟨.unexpectedToken word.value, word.place⟩
  match ← (words place body).next with
  | none => .error ⟨.emptyTag, place⟩
  | some (first, others) =>
    if first.key.isSome then refuse first
    else match ← others.next with
      | none => .ok (.inclusion first.value none)
      | some (second, others) =>
        if second.key.isSome then refuse second
        else do
          let context ← Expr.ofWord second
          match ← others.next with
          | none => .ok (.inclusion first.value (some context))
          | some (third, _) => refuse third

end Stencil
