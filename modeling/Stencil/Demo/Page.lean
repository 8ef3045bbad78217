import Stencil.Render.Template

/-!
# A page with a list of things to do

A small page shows how the parts of the library work together: a template with a block and a
partial, a partial inside a partial, and a helper that writes a link.
-/

namespace Stencil.Demo

structure Todo where
  id : Nat
  title : String
  url : String
  done : Bool
deriving Repr, DecidableEq

structure Page where
  owner : String
  todos : List Todo
deriving Repr, DecidableEq

instance : Callable Empty where
  call := nofun

/-! ### The page as a value -/

def Todo.toValue (todo : Todo) : Value Empty :=
  .object [("done", .boolean todo.done), ("id", .number (.integer todo.id)),
    ("title", .string todo.title), ("url", .string todo.url)]

def Page.toValue (page : Page) : Value Empty :=
  .object [("owner", .string page.owner), ("todos", .array (page.todos.map Todo.toValue))]

/-! ### The templates -/

def tag (body : String) : String :=
  "\x7b\x7b" ++ body ++ "\x7d\x7d"

def pageSource : String :=
  "<h1>" ++ tag "owner" ++ "'s list</h1>\n<ul>" ++ tag "#each todos" ++ "\n" ++ tag "> todo/item" ++
    tag "else" ++ "<li>Nothing to do</li>" ++ tag "/each" ++ "\n</ul>"

def buttonSource : String :=
  "<button id=\"todo-" ++ tag "id" ++ "\">" ++ tag "title" ++ "</button>\n"

def itemSource : String :=
  "<li class=\"" ++ tag "#if done" ++ "done" ++ tag "else" ++ "open" ++ tag "/if" ++ "\">" ++
    tag "> button" ++ " " ++ tag "\x7blink url\x7d" ++ "</li>\n"

/-! ### The page -/

/-- The helper that writes its first parameter as the target of a link. -/
def link : Helper Empty :=
  .custom fun invocation =>
    let url := (invocation.params.head?.map Value.render).getD ""
    pure (.safe ("<a href=\"" ++ Html.escape url ++ "\">open</a>"))

def environment : Environment Empty where
  helpers := Helper.builtins.insert "link" link
  partials := [("button", .source ⟨buttonSource, 0⟩), ("todo/item", .source ⟨itemSource, 1⟩)]

def Page.render (page : Page) : Outcome String :=
  match Template.compile pageSource {} with
  | .ok template => template.render page.toValue environment
  | .error error => .failed (.unparsable error)

end Stencil.Demo
