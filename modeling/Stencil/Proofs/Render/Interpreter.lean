import Stencil.Proofs.Render.Laws

/-!
# Interpreting nodes

The nodes of a template have a meaning of their own, without operations and without a way of look-up
that is settled beforehand. At each tag the name is asked for where the tag stands: first among the
helpers, if the tag may ask them at all, then among the values, and what is found decides what
happens. Compiling and rendering is the same as interpreting.
-/

namespace Stencil

/-- What is fixed while the nodes of one template are interpreted. -/
structure Interpreter (φ σ : Type) where
  /-- Takes note of what happens -/
  note : Event φ → σ → σ
  helpers : Table (Helper φ)
  options : CompileOptions
  /-- Renders the partial of a name with a context and with the data frame of its tag -/
  partials : String → Value φ → Option (Table (Value φ)) → Run σ String

def CompileOptions.root {φ : Type} (options : CompileOptions) (context : Value φ)
    (data : Option (Table (Value φ))) : Scope φ where
  current := context
  data := if options.data then data else none

/-- What a tag means where it stands: a helper or function is called with parameters and their
contexts, or there is a value. -/
inductive Meaning (φ : Type) where
  | call (helper : Helper φ) (params contexts : List (Value φ))
  | value (value : Value φ)

namespace Interpreter

variable {φ σ : Type} (interpreter : Interpreter φ σ)

/-! ### Names -/

/-- Whether a tag with this head asks the helpers for its name. -/
def consults (path : Path) : Bool :=
  path.isSimple &&
    (!interpreter.options.knownHelpersOnly || interpreter.options.isKnown (path.segments.headD ""))

/-- The helper that is registered under the name of one of the library, or else that one. -/
def hook (builtin : Builtin) : Helper φ :=
  (interpreter.helpers.find? builtin.name).getD (.builtin builtin)

/-- The value of an expression. A path that leads nowhere has the value null. -/
def value (scope : Scope φ) : Expr → Value φ
  | .literal literal => literal.value
  | .path path => (scope.find? path).getD .null

/-- What a helper gets for a parameter: its value, or the text of a path if the options say so. -/
def param (scope : Scope φ) (expr : Expr) : Value φ :=
  match expr with
  | .path path => if interpreter.options.stringParams then .string path.dotted else value scope expr
  | .literal _ => value scope expr

/-- Where a parameter would be looked up. -/
def paramContext (scope : Scope φ) : Expr → Value φ
  | .path path => (scope.frame? path.depth).getD .null
  | .literal _ => scope.current

def meaning [Callable φ] (isBlock : Bool) (path : Path) (call : Call) (scope : Scope φ) : Meaning φ :=
  let consulted := interpreter.consults path
  let found := scope.find? path
  let contexts :=
    if interpreter.options.stringParams then call.params.map (paramContext scope) else []
  let withParams (helper : Helper φ) : Meaning φ :=
    .call helper (call.params.map (interpreter.param scope)) contexts
  match if consulted then interpreter.helpers.find? path.text else none, found with
  | some helper, _ => withParams helper
  | none, some (.function handle) => withParams (.ofFunction handle)
  | none, _ =>
    if consulted && call.hasArguments then withParams (interpreter.hook .helperMissing)
    else if isBlock then
      let helper := if interpreter.options.knownHelpersOnly then .builtin .blockHelperMissing
        else interpreter.hook .blockHelperMissing
      .call helper [found.getD .null] []
    else if consulted && found.isNone then withParams (interpreter.hook .helperMissing)
    else .value (found.getD .null)

section

variable [Callable φ] {isBlock : Bool} {path : Path} {call : Call} {scope : Scope φ} {helper : Helper φ} {handle : φ}

theorem meaning_of_registered
    (h : (if interpreter.consults path then interpreter.helpers.find? path.text else none) = some helper) :
    interpreter.meaning isBlock path call scope =
      .call helper (call.params.map (interpreter.param scope))
        (if interpreter.options.stringParams then call.params.map (paramContext scope) else []) := by
  simp only [meaning, h]

theorem meaning_of_function
    (h : (if interpreter.consults path then interpreter.helpers.find? path.text else none) = none)
    (hfunction : scope.find? path = some (.function handle)) :
    interpreter.meaning isBlock path call scope =
      .call (.ofFunction handle) (call.params.map (interpreter.param scope))
        (if interpreter.options.stringParams then call.params.map (paramContext scope) else []) := by
  simp only [meaning, h, hfunction]

/-- What is no helper and no function is missing, a section or a value. -/
theorem meaning_of_value
    (h : (if interpreter.consults path then interpreter.helpers.find? path.text else none) = none)
    (hvalue : ∀ handle, scope.find? path ≠ some (.function handle)) :
    interpreter.meaning isBlock path call scope =
      let withParams (helper : Helper φ) : Meaning φ :=
        .call helper (call.params.map (interpreter.param scope))
          (if interpreter.options.stringParams then call.params.map (paramContext scope) else [])
      if interpreter.consults path && call.hasArguments then withParams (interpreter.hook .helperMissing)
      else if isBlock then
        let helper := if interpreter.options.knownHelpersOnly then .builtin .blockHelperMissing
          else interpreter.hook .blockHelperMissing
        .call helper [(scope.find? path).getD .null] []
      else if interpreter.consults path && (scope.find? path).isNone then
        withParams (interpreter.hook .helperMissing)
      else .value ((scope.find? path).getD .null) := by
  simp only [meaning, h]

end

/-! ### Calls -/

def observe (event : Event φ) : Run σ Unit := fun state => (.done (), interpreter.note event state)

/-- The scope of a body that a helper asks for. A new data frame only counts if the template tracks
it. -/
def entered (scope : Scope φ) (request : BodyRequest φ) : Scope φ where
  current := request.context.getD scope.current
  outer := scope.current :: scope.outer
  data := if interpreter.options.data then request.data.or scope.data else scope.data

/-- Renders the body that a helper asks for. A body that is not there is empty. -/
def answer (scope : Scope φ) (bodies : Bodies φ σ) (request : BodyRequest φ) :
    Run σ (Except RenderError String) :=
  match bodies.find? request.inverse with
  | none => pure (.ok "")
  | some body => do
    interpreter.observe (.entered request)
    let text ← Run.attempt (body (interpreter.entered scope request))
    interpreter.observe .left
    return text

def perform (scope : Scope φ) (bodies : Bodies φ σ) {α : Type} : Action φ α → Run σ α
  | .done result => pure result
  | .fail error => Run.fail error
  | .body request next => do
    let text ← interpreter.answer scope bodies request
    perform scope bodies (next text)

def tag [Callable φ] (isBlock : Bool) (path : Path) (call : Call) (scope : Scope φ)
    (bodies : Bodies φ σ) : Run σ (Value φ) :=
  match interpreter.meaning isBlock path call scope with
  | .value value => pure value
  | .call helper params contexts => do
    let invocation : Invocation φ :=
      { name := path.text
        params := params
        hash := call.hash.map fun entry => (entry.1, value scope entry.2)
        contexts := contexts
        current := scope.current
        data := scope.data
        isBlock := isBlock
        hasInverse := bodies.inverse.isSome }
    interpreter.observe (.called helper.isBuiltin invocation)
    interpreter.perform scope bodies (helper.run invocation)

/-! ### Nodes -/

mutual

def node [Callable φ] (scope : Scope φ) : Node → Run σ String
  | .content text => pure text
  | .comment _ => pure ""
  | .mustache call escaped =>
    match call.head with
    | .literal literal => pure ((value scope (.literal literal)).write escaped)
    | .path path => return (← interpreter.tag false path call scope {}).write escaped
  | .block call program none =>
    match call.head with
    | .literal _ => pure ""
    | .path path =>
      return (← interpreter.tag true path call scope { program := some (nodes · program) }).render
  | .block call program (some inverse) =>
    match call.head with
    | .literal _ => pure ""
    | .path path =>
      return (← interpreter.tag true path call scope
        { program := some (nodes · program), inverse := some (nodes · inverse) }).render
  | .inclusion name context =>
    interpreter.partials name ((context.map (value scope)).getD scope.current) scope.data

def nodes [Callable φ] (scope : Scope φ) : List Node → Run σ String
  | [] => pure ""
  | next :: rest => do
    let text ← node scope next
    return text ++ (← nodes scope rest)

end

theorem nodes_append [Callable φ] (scope : Scope φ) (left right : List Node) :
    interpreter.nodes scope (left ++ right) = do
      let text ← interpreter.nodes scope left
      return text ++ (← interpreter.nodes scope right) := by
  induction left with
  | nil => simp only [List.nil_append, nodes, pure_bind, String.empty_append, bind_pure]
  | cons node left ih =>
    simp only [List.cons_append, nodes, ih, bind_assoc, pure_bind, String.append_assoc]

def block [Callable φ] (call : Call) (bodies : Bodies φ σ) (scope : Scope φ) : Run σ String :=
  match call.head with
  | .literal _ => pure ""
  | .path path => return (← interpreter.tag true path call scope bodies).render

theorem node_block [Callable φ] (scope : Scope φ) (call : Call) (program : List Node)
    (inverse : Option (List Node)) :
    interpreter.node scope (.block call program inverse) =
      interpreter.block call ⟨some (interpreter.nodes · program),
        inverse.map fun nodes scope => interpreter.nodes scope nodes⟩ scope := by
  cases inverse with
  | none => rw [node, block]; rfl
  | some inverse => rw [node, block]; rfl

end Interpreter

end Stencil
