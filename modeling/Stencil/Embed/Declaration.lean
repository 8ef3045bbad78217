import Stencil.Embed.Error
import Stencil.Embed.Expression
import Stencil.Template.Compile

/-!
# Declared templates

The declaration of a template is a string literal, followed by options if there are any. The form of
all options is checked before the first one is looked at, and the template is checked last. An
option that is given twice counts the last time.
-/

namespace Stencil.Embed

/-- An option as it is written: its name, which is absent if a path stands in its place, and its
value. -/
structure Assignment where
  name : Option String
  value : List Tree

/-- Whether a word can be part of a path. -/
def isPathWord (word : String) : Bool :=
  !(word ∈ reservedWords)

/-- Reads what follows a word of a path, up to the equals sign. The flag says whether the path goes
on. -/
def afterPathWord? : List Tree → Option (Bool × List Tree)
  | .leaf (.mark '=') :: value => some (false, value)
  | .leaf (.mark ':') :: .leaf (.mark ':') :: .leaf (.word word) :: rest =>
    if isPathWord word then (afterPathWord? rest).map fun tail => (true, tail.2) else none
  | _ => none

/-- Reads a word or path and an equals sign. -/
def optionName? : List Tree → Option (Option String × List Tree)
  | .leaf (.word "unsafe") :: .leaf (.mark '=') :: value => some (some "unsafe", value)
  | .leaf (.mark ':') :: .leaf (.mark ':') :: .leaf (.word word) :: rest =>
    if isPathWord word then (afterPathWord? rest).map fun tail => (none, tail.2) else none
  | .leaf (.word word) :: rest =>
    if isPathWord word then
      (afterPathWord? rest).map fun tail => (if tail.1 then none else some word, tail.2)
    else none
  | _ => none

/-- Reads an option, up to a comma or to the end, and counts its trees. Its value has no attributes
in front. -/
def assignment? (trees : List Tree) : Option (Assignment × Nat) := do
  let (name, rest) ← optionName? trees
  if (withoutAttributes rest).length < rest.length then none
  else
    let value ← expression? .operand rest
    return (⟨name, value⟩, trees.length - rest.length + value.length)

/-- Reads options with commas between them, behind the given number of trees. A comma can stand
behind the last option. -/
def assignments? : Nat → List Tree → Option (List Assignment)
  | _, [] => some []
  | skip + 1, _ :: rest => assignments? skip rest
  | 0, tree :: rest => do
    let (option, length) ← assignment? (tree :: rest)
    return option :: (← assignments? length rest)

/-- A template as it is declared, with the options that are given. -/
structure Declaration where
  source : String
  knownHelpers : List String := []
  knownHelpersOnly : Option Bool := none
  stringParams : Option Bool := none
  data : Option Bool := none
deriving Repr, DecidableEq

/-- A single step from the default options to the declared ones. -/
inductive Setting where
  | known (helper : String)
  | knownOnly (value : Bool)
  | stringParams (value : Bool)
  | data (value : Bool)
deriving Repr, DecidableEq

def Setting.apply (options : CompileOptions) : Setting → CompileOptions
  | .known helper => options.declare helper true
  | .knownOnly value => { options with knownHelpersOnly := value }
  | .stringParams value => { options with stringParams := value }
  | .data value => { options with data := value }

namespace Declaration

/-- The truth value that a value is. -/
def readFlag : List Tree → Except DeclarationError Bool
  | [.leaf (.word "true")] => .ok true
  | [.leaf (.word "false")] => .ok false
  | _ => .error .noFlag

def readName (item : List Tree) : Except DeclarationError String :=
  match withoutAttributes item with
  | [.leaf (.text content)] => .ok content
  | _ => .error .noText

/-- The names in the array that a value is. An array of a value and a count has no names. -/
def readNames : List Tree → Except DeclarationError (List String)
  | [.group '[' trees] =>
    if trees.any (Tree.isMark ';') then .error .noNames
    else ((items? ',' trees).getD []).mapM readName
  | _ => .error .noNames

def set (declaration : Declaration) (option : Assignment) : Except DeclarationError Declaration :=
  match option.name with
  | none => .error .pathAsOption
  | some "known_helpers" => return { declaration with knownHelpers := ← readNames option.value }
  | some "known_helpers_only" => return { declaration with knownHelpersOnly := ← readFlag option.value }
  | some "string_params" => return { declaration with stringParams := ← readFlag option.value }
  | some "data" => return { declaration with data := ← readFlag option.value }
  | some name => .error (.unknownOption name)

/-- The settings in the order of the options, whatever order they are given in. -/
def settings (declaration : Declaration) : List Setting :=
  declaration.knownHelpers.map .known ++
    (declaration.knownHelpersOnly.map Setting.knownOnly).toList ++
    (declaration.stringParams.map Setting.stringParams).toList ++
    (declaration.data.map Setting.data).toList

def options (declaration : Declaration) : CompileOptions :=
  declaration.settings.foldl Setting.apply {}

/-- The source and the options of a declaration, which are well formed but not looked at yet. -/
def form? (trees : List Tree) : Option (String × List Assignment) :=
  match trees with
  | [.leaf (.text source)] => some (source, [])
  | .leaf (.text source) :: .leaf (.mark ',') :: rest => do return (source, ← assignments? 0 rest)
  | _ => none

def compile (declared : String) : Except DeclarationError (Declaration × Template) := do
  match (trees? declared).bind form? with
  | none => .error .malformed
  | some (source, options) =>
    let declaration ← options.foldlM set { source }
    match Template.compile source declaration.options with
    | .ok template => return (declaration, template)
    | .error error => .error (.invalidTemplate error)

end Declaration

end Stencil.Embed
