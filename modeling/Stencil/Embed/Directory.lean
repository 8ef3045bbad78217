import Stencil.Embed.Error
import Stencil.Embed.Tree
import Stencil.Render.Environment
import Stencil.Template.Compile
import Stencil.Text.Pieces

/-!
# Declared partials

The declaration of partials names a directory below a root. Every file below the directory that has
the extension of templates becomes a partial, named by its path from the directory without the
extension. The files are taken in the order of their paths, which are compared name by name. A path
names a file or directory by the names of the directories around it and its own.
-/

namespace Stencil.Embed

/-- The names on the way from the root. -/
abbrev Route := List String

structure File where
  path : Route
  content : ByteArray

/-- The files below a root, and the directories that may hold none. -/
structure Directory where
  /-- How the path of the root is written -/
  location : String
  files : List File
  directories : List Route

def Route.ofText (text : String) : Route :=
  (pieces (· == '/') text.toList).map String.ofList

def Route.toText (path : Route) : String :=
  String.intercalate "/" path

namespace Directory

variable (root : Directory)

/-- Whether there is a directory on the way to any file or directory, or at its end. -/
def isDirectory (path : Route) : Bool :=
  root.directories.any (path.isPrefixOf ·) ||
    root.files.any fun file => path.isPrefixOf file.path && path.length < file.path.length

/-- Walks along the names in a path from a directory. An empty name and a dot stay where they are,
and two dots go back to the directory around. -/
def walk? : Route → List String → Option Route
  | place, [] => some place
  | place, name :: names =>
    if name = "" ∨ name = "." then walk? place names
    else if name = ".." then if place.isEmpty then none else walk? place.dropLast names
    else if root.isDirectory (place ++ [name]) then walk? (place ++ [name]) names
    else none

/-- The directory that a text names. A text that starts with a slash does not start from the
root. -/
def resolve? (text : String) : Option Route :=
  if text.toList.head? = some '/' then none else root.walk? [] (Route.ofText text)

def insertFile (file : File) : List File → List File
  | [] => [file]
  | other :: rest =>
    if file.path < other.path then file :: other :: rest else other :: insertFile file rest

/-- The files below a directory, by their paths from there, in order. -/
def filesBelow (place : Route) : List File :=
  ((root.files.filter fun file => place.isPrefixOf file.path).map fun file =>
    { file with path := file.path.drop place.length }).foldr insertFile []

end Directory

/-! ### Partials in files -/

/-- The name of a file without its extension, if that is the one of templates. A dot in front of a
name starts no extension. -/
def stem? (name : String) : Option String :=
  let before := name.toList.reverse.drop 4
  if ['s', 'b', 'h', '.'].isPrefixOf name.toList.reverse && !before.isEmpty then
    some (String.ofList before.reverse)
  else none

def partialName? (path : Route) : Option String := do
  let stem ← stem? (← path.getLast?)
  return Route.toText (path.dropLast ++ [stem])

/-- A partial that was found in a file, with the path of the file as it is shown. -/
structure Found where
  name : String
  path : String
  source : String
deriving Repr, DecidableEq

/-- The path of a directory that a text names, as it is shown. -/
def Directory.shown (root : Directory) (text : String) : String :=
  if text.toList.head? = some '/' then text else root.location ++ "/" ++ text

/-- The path of a file below a directory as it is shown. -/
def shownBelow (directory : String) (path : Route) : String :=
  if directory.toList.getLast? = some '/' then directory ++ path.toText
  else directory ++ "/" ++ path.toText

def readPartial (directory : String) (file : File) : Except DeclarationError (Option Found) :=
  match partialName? file.path with
  | none => .ok none
  | some name =>
    let path := shownBelow directory file.path
    match String.fromUTF8? file.content with
    | none => .error (.unreadable path)
    | some source =>
      match Template.compile source {} with
      | .ok _ => .ok (some ⟨name, path, source⟩)
      | .error error => .error (.invalidPartial name error)

/-- Reads all partials in the directory that is declared, in order. -/
def partials (declared : String) (root : Option Directory) : Except DeclarationError (List Found) :=
  match trees? declared with
  | some [.leaf (.text text)] =>
    match root with
    | none => .error .noRoot
    | some root =>
      match root.resolve? text with
      | none => .error (.noDirectory (root.shown text))
      | some place => do
        let found ← (root.filesBelow place).mapM (readPartial (root.shown text))
        return found.filterMap id
  | _ => .error .malformed

/-- The environment that has the partials, each with a number of its own. -/
def environment {φ : Type} (found : List Found) : Environment φ where
  partials := Table.ofPairs (found.mapIdx fun number file => (file.name, .source ⟨file.source, number⟩))

end Stencil.Embed
