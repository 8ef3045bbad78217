import Stencil.Demo.Page
import Stencil.Proofs.Html
import Stencil.Proofs.Render.Inlining

/-!
# What the page looks like

Every page renders, whatever texts are in it. Each of its two partials is a function of the entry
that it is rendered for, and the list has what they give for the entries one after another, or a
line of its own if there are none.
-/

namespace Stencil.Demo

variable {σ : Type}

/-! ### Texts of the page -/

def Todo.button (todo : Todo) : String :=
  "<button id=\"todo-" ++ toString todo.id ++ "\">" ++ Html.escape todo.title ++ "</button>\n"

def Todo.link (todo : Todo) : String :=
  "<a href=\"" ++ Html.escape todo.url ++ "\">open</a>"

def Todo.item (todo : Todo) : String :=
  "<li class=\"" ++ (if todo.done then "done" else "open") ++ "\">" ++ todo.button ++ " " ++ todo.link ++
    "</li>\n"

def Page.list (page : Page) : String :=
  if page.todos = [] then "<li>Nothing to do</li>" else String.join (page.todos.map ("\n" ++ ·.item))

def Page.text (page : Page) : String :=
  "<h1>" ++ Html.escape page.owner ++ "'s list</h1>\n<ul>" ++ page.list ++ "\n</ul>"

/-! ### Nodes of the templates -/

def buttonNodes : List Node :=
  [.content "<button id=\"todo-",
    .mustache ⟨.path ⟨"id", 0, false, ["id"]⟩, [], [], ⟨19, 21⟩⟩ true,
    .content "\">",
    .mustache ⟨.path ⟨"title", 0, false, ["title"]⟩, [], [], ⟨27, 32⟩⟩ true,
    .content "</button>\n"]

def itemNodes : List Node :=
  [.content "<li class=\"",
    .block ⟨.path ⟨"if", 0, false, ["if"]⟩, [.path ⟨"done", 0, false, ["done"]⟩], [], ⟨14, 21⟩⟩
      [.content "done"] (some [.content "open"]),
    .content "\">",
    .inclusion "button" none,
    .content " ",
    .mustache ⟨.path ⟨"link", 0, false, ["link"]⟩, [.path ⟨"url", 0, false, ["url"]⟩], [], ⟨64, 72⟩⟩ false,
    .content "</li>\n"]

def pageNodes : List Node :=
  [.content "<h1>",
    .mustache ⟨.path ⟨"owner", 0, false, ["owner"]⟩, [], [], ⟨6, 11⟩⟩ true,
    .content "'s list</h1>\n<ul>",
    .block ⟨.path ⟨"each", 0, false, ["each"]⟩, [.path ⟨"todos", 0, false, ["todos"]⟩], [], ⟨33, 43⟩⟩
      [.content "\n", .inclusion "todo/item" none] (some [.content "<li>Nothing to do</li>"]),
    .content "\n</ul>"]

theorem parse_buttonSource : parse buttonSource = .ok buttonNodes := by
  rfl

theorem parse_itemSource : parse itemSource = .ok itemNodes := by
  rfl

set_option maxRecDepth 2000 in
theorem parse_pageSource : parse pageSource = .ok pageNodes := by
  rfl

/-! ### Renderings -/

theorem known_of_default {name : String} :
    CompileOptions.knownHelpersOnly {} = true → CompileOptions.isKnown {} name = true :=
  nofun

section

variable (limit : Nat) (data : Option (Table (Value Empty))) (todo : Todo)

theorem write_id (id : Nat) : (.number (.integer id) : Value Empty).write true = toString id := by
  have hdigits : (toString id).toList = Nat.toDigits 10 id := String.toList_ofList
  have hrender : (.number (.integer id) : Value Empty).render = toString id := by
    rw [Value.render, Number.render, writeInt, if_neg (by omega), Int.natAbs_natCast, ← hdigits,
      String.ofList_toList]
  have hplain : ∀ char ∈ (toString id).toList, Html.entity? char = none := by
    intro char hchar
    rw [hdigits] at hchar
    exact Html.entity?_of_isDigit (Nat.isDigit_of_mem_toDigits (by decide) (by decide) hchar)
  have hescaped : (.number (.integer id) : Value Empty).write true = Html.escape (toString id) := by
    rw [← hrender]
    rfl
  rw [hescaped, Html.escape_of_plain hplain]

theorem nodes_button :
    ((environment.interpreter {} limit).nodes (CompileOptions.root {} todo.toValue data) buttonNodes :
      Run σ String) = pure todo.button := by
  let scope : Scope Empty := CompileOptions.root {} todo.toValue data
  have hid : ((environment.interpreter {} limit).node scope
      (.mustache ⟨.path ⟨"id", 0, false, ["id"]⟩, [], [], ⟨19, 21⟩⟩ true) : Run σ String) =
        pure (toString todo.id) := by
    have hvalue : scope.find? ⟨"id", 0, false, ["id"]⟩ = some (.number (.integer todo.id)) := rfl
    rw [← write_id]
    exact Environment.node_property rfl hvalue rfl _ _
  have htitle : ((environment.interpreter {} limit).node scope
      (.mustache ⟨.path ⟨"title", 0, false, ["title"]⟩, [], [], ⟨27, 32⟩⟩ true) : Run σ String) =
        pure (Html.escape todo.title) := by
    have hvalue : scope.find? ⟨"title", 0, false, ["title"]⟩ = some (.string todo.title) := rfl
    exact Environment.node_property rfl hvalue rfl _ _
  rw [buttonNodes, Interpreter.nodes_eq_join _ _ (.cons rfl (.cons hid (.cons rfl (.cons htitle (.cons rfl .nil)))))]
  unfold Todo.button
  simp only [String.join_cons, String.join_nil, String.append_assoc, String.append_empty]

theorem partial_button :
    ((environment.interpreter {} (limit + 1)).partials "button" todo.toValue data : Run σ String) =
      pure todo.button := by
  have hpartial : environment.partials.find? "button" = some (.source ⟨buttonSource, 0⟩) := rfl
  rw [partials_source hpartial parse_buttonSource, Template.run_succ_eq_nodes]
  exact nodes_button limit data todo

theorem nodes_item :
    ((environment.interpreter {} (limit + 1)).nodes (CompileOptions.root {} todo.toValue data) itemNodes :
      Run σ String) = pure todo.item := by
  let scope : Scope Empty := CompileOptions.root {} todo.toValue data
  have hif : ((environment.interpreter {} (limit + 1)).node scope
      (.block ⟨.path ⟨"if", 0, false, ["if"]⟩, [.path ⟨"done", 0, false, ["done"]⟩], [], ⟨14, 21⟩⟩
        [.content "done"] (some [.content "open"])) : Run σ String) =
        pure (if todo.done then "done" else "open") := by
    have hdone : Interpreter.value scope (.path ⟨"done", 0, false, ["done"]⟩) = .boolean todo.done := rfl
    rw [Environment.node_if rfl known_of_default rfl, hdone]
    cases todo.done <;> rfl
  have hbutton : ((environment.interpreter {} (limit + 1)).node scope (.inclusion "button" none) : Run σ String) =
      pure todo.button :=
    partial_button limit none todo
  have hlink : ((environment.interpreter {} (limit + 1)).node scope
      (.mustache ⟨.path ⟨"link", 0, false, ["link"]⟩, [.path ⟨"url", 0, false, ["url"]⟩], [], ⟨64, 72⟩⟩ false) :
        Run σ String) = pure todo.link := by
    have hfind : environment.helpers.find? "link" = some Demo.link := rfl
    have hrun : ∀ invocation : Invocation Empty,
        invocation.params = [Interpreter.value scope (.path ⟨"url", 0, false, ["url"]⟩)] →
        Demo.link.run invocation = pure (.safe todo.link) := by
      intro invocation hparams
      rw [Demo.link, Helper.run, hparams]
      rfl
    exact Environment.node_helper known_of_default rfl hfind hrun _ _
  rw [itemNodes, Interpreter.nodes_eq_join _ _
    (.cons rfl (.cons hif (.cons rfl (.cons hbutton (.cons rfl (.cons hlink (.cons rfl .nil)))))))]
  unfold Todo.item
  simp only [String.join_cons, String.join_nil, String.append_assoc, String.append_empty]

theorem partial_item :
    ((environment.interpreter {} (limit + 2)).partials "todo/item" todo.toValue data : Run σ String) =
      pure todo.item := by
  have hpartial : environment.partials.find? "todo/item" = some (.source ⟨itemSource, 1⟩) := rfl
  rw [partials_source hpartial parse_itemSource, Template.run_succ_eq_nodes]
  exact nodes_item limit data todo

theorem nodes_page (page : Page) :
    ((environment.interpreter {} (limit + 2)).nodes (CompileOptions.root {} page.toValue data) pageNodes :
      Run σ String) = pure page.text := by
  let scope : Scope Empty := CompileOptions.root {} page.toValue data
  have howner : ((environment.interpreter {} (limit + 2)).node scope
      (.mustache ⟨.path ⟨"owner", 0, false, ["owner"]⟩, [], [], ⟨6, 11⟩⟩ true) : Run σ String) =
        pure (Html.escape page.owner) := by
    have hvalue : scope.find? ⟨"owner", 0, false, ["owner"]⟩ = some (.string page.owner) := rfl
    exact Environment.node_property rfl hvalue rfl _ _
  have hrow : ∀ todo ∈ page.todos,
      ((environment.interpreter {} (limit + 2)).nodes (scope.enter (some todo.toValue) none)
        [.content "\n", .inclusion "todo/item" none] : Run σ String) = pure ("\n" ++ todo.item) := by
    intro todo _
    have hitem : ((environment.interpreter {} (limit + 2)).node (scope.enter (some todo.toValue) none)
        (.inclusion "todo/item" none) : Run σ String) = pure todo.item :=
      partial_item limit none todo
    rw [Interpreter.nodes_eq_join _ _ (.cons rfl (.cons hitem .nil))]
    simp
  have hlist : ((environment.interpreter {} (limit + 2)).node scope
      (.block ⟨.path ⟨"each", 0, false, ["each"]⟩, [.path ⟨"todos", 0, false, ["todos"]⟩], [], ⟨33, 43⟩⟩
        [.content "\n", .inclusion "todo/item" none] (some [.content "<li>Nothing to do</li>"])) : Run σ String) =
        pure page.list := by
    have hrows : Interpreter.value scope (.path ⟨"todos", 0, false, ["todos"]⟩) =
        .array (page.todos.map Todo.toValue) := rfl
    rw [Environment.node_each rfl known_of_default rfl hrows hrow, Page.list]
    split <;> rfl
  rw [pageNodes, Interpreter.nodes_eq_join _ _
    (.cons rfl (.cons howner (.cons rfl (.cons hlist (.cons rfl .nil)))))]
  unfold Page.text
  simp only [String.join_cons, String.join_nil, String.append_assoc, String.append_empty]

end

/-- **Every page renders.** Whatever its owner and its entries are, rendering a page succeeds, and
the output is the heading with the owner, then the entries in their order or the line for none. -/
theorem Page.render_eq_text (page : Page) : page.render = .done page.text := by
  have hrun : ∀ limit, Template.run .silent environment (limit + 2 + 1)
      ⟨compileNodes {} pageNodes, {}⟩ page.toValue none = (pure page.text : Run Unit String) := by
    intro limit
    rw [Template.run_succ_eq_nodes, nodes_page]
  obtain ⟨limit, hlimit⟩ : ∃ limit, Template.nestingLimit = limit + 2 + 1 :=
    ⟨999997, by rw [Template.nestingLimit]⟩
  unfold Page.render
  simp only [Template.compile_of_parse parse_pageSource]
  rw [Template.render, hlimit]
  exact congrArg (fun run => (run ()).1) (hrun limit)

end Stencil.Demo
