import Stencil.Render.Run
import Stencil.Render.Scope
import Stencil.Value.Text

/-!
# Rendering

The operations of a template are rendered one after another in a scope. A tag with a name calls a
helper or function, or yields a property. When a helper asks for a body of its block, the body is
rendered in the scope of the block with one more context on top. A partial is rendered from a root
of its own.
-/

namespace Stencil

/-- What is fixed while the operations of one template are rendered. -/
structure Renderer (φ σ : Type) where
  host : Host φ σ
  environment : Environment φ
  options : CompileOptions
  /-- Renders another template with a context and a data frame -/
  nested : Template → Value φ → Option (Table (Value φ)) → Run σ String

/-- A body of a block, as a computation from the scope it is rendered in. -/
abbrev Body (φ σ : Type) := Scope φ → Run σ String

/-- The bodies of a block. The tag of a value has none. -/
structure Bodies (φ σ : Type) where
  program : Option (Body φ σ) := none
  inverse : Option (Body φ σ) := none

/-- What the name of a tag turns out to be. -/
inductive Target (φ : Type) where
  | helper (helper : Helper φ)
  | value (found : Option (Value φ))

/-- What a value that was looked up makes of a name. -/
def Target.ofFound {φ : Type} [Callable φ] : Option (Value φ) → Target φ
  | some (.function handle) => .helper (.ofFunction handle)
  | found => .value found

/-- The value of a literal. A numeral that denotes no number stays text. -/
def Literal.value {φ : Type} : Literal → Value φ
  | .string content => .string content
  | .boolean value => .boolean value
  | .number text =>
    match Number.ofNumeral? text.toList with
    | some read => .number read
    | none => .string text

namespace Scope

variable {φ : Type}

/-- The value that a helper gets for a parameter. -/
def resolve (scope : Scope φ) : Param → Value φ
  | .literal literal => literal.value
  | .path path => (scope.find? path).getD .null
  | .source text _ => .string text

/-- Where a parameter would have been looked up. -/
def contextOf (scope : Scope φ) : Param → Value φ
  | .source _ depth => (scope.frame? depth).getD .null
  | _ => scope.current

end Scope

namespace Bodies

variable {φ σ : Type}

def find? (bodies : Bodies φ σ) (inverse : Bool) : Option (Body φ σ) :=
  if inverse then bodies.inverse else bodies.program

end Bodies

namespace Renderer

variable {φ σ : Type} (renderer : Renderer φ σ)

/-- What a helper is told about a tag in a scope. -/
def invocation (call : Invocable) (scope : Scope φ) (bodies : Bodies φ σ)
    (params contexts : List (Value φ)) : Invocation φ where
  name := call.name
  params := params
  hash := call.hash.map fun entry => (entry.1, scope.resolve entry.2)
  contexts := contexts
  current := scope.current
  data := scope.data
  isBlock := bodies.program.isSome
  hasInverse := bodies.inverse.isSome

/-- Renders the body that a helper asks for. A new data frame only counts if the template tracks it.
A body that is not there is empty. -/
def answer (scope : Scope φ) (bodies : Bodies φ σ) (request : BodyRequest φ) :
    Run σ (Except RenderError String) :=
  match bodies.find? request.inverse with
  | none => pure (.ok "")
  | some body => do
    Run.note renderer.host (.entered request)
    let data := if renderer.options.data then request.data else none
    let text ← Run.attempt (body (scope.enter request.context data))
    Run.note renderer.host .left
    return text

def perform (scope : Scope φ) (bodies : Bodies φ σ) {α : Type} : Action φ α → Run σ α
  | .done result => pure result
  | .fail error => Run.fail error
  | .body request next => do
    let text ← renderer.answer scope bodies request
    perform scope bodies (next text)

def call (helper : Helper φ) (invocation : Invocation φ) (scope : Scope φ) (bodies : Bodies φ σ) :
    Run σ (Value φ) := do
  Run.note renderer.host (.called helper.isBuiltin invocation)
  renderer.perform scope bodies (helper.run invocation)

def invoke (helper : Helper φ) (call : Invocable) (scope : Scope φ) (bodies : Bodies φ σ) :
    Run σ (Value φ) :=
  let contexts := if renderer.options.stringParams then call.params.map scope.contextOf else []
  renderer.call helper
    (invocation call scope bodies (call.params.map scope.resolve) contexts) scope bodies

/-- What the name of a tag is: a helper that is registered, a function among the values, or a
value. -/
def target [Callable φ] (call : Invocable) (scope : Scope φ) : Target φ :=
  let registered := match call.resolution with
    | .property => none
    | _ => renderer.environment.helpers.find? call.name
  match registered with
  | some helper => .helper helper
  | none => .ofFound (scope.find? call.path)

/-- The value of a tag that is not a block. -/
def expression [Callable φ] (call : Invocable) (scope : Scope φ) : Run σ (Value φ) :=
  let missing := renderer.invoke (renderer.environment.hook .helperMissing) call scope {}
  match renderer.target call scope with
  | .helper helper => renderer.invoke helper call scope {}
  | .value found =>
    match call.resolution, found with
    | .helper, _ => missing
    | .known, none => missing
    | .ambiguous, none => missing
    | _, found => pure (found.getD .null)

def block [Callable φ] (call : Invocable) (scope : Scope φ) (bodies : Bodies φ σ) : Run σ (Value φ) :=
  match renderer.target call scope with
  | .helper helper => renderer.invoke helper call scope bodies
  | .value found =>
    if call.resolution = .helper then
      renderer.invoke (renderer.environment.hook .helperMissing) call scope bodies
    else
      let value := found.getD .null
      let helper := if renderer.options.knownHelpersOnly then .builtin .blockHelperMissing
        else renderer.environment.hook .blockHelperMissing
      renderer.call helper (invocation call scope bodies [value] []) scope bodies

def inclusion (name : String) (context : Option Param) (scope : Scope φ) : Run σ String :=
  match renderer.environment.partials.find? name with
  | none => Run.fail (.partialNotFound name)
  | some included =>
    let context := match context with
      | some param => scope.resolve param
      | none => scope.current
    match included with
    | .source source => do
      let template ← Run.compile renderer.host source renderer.options.data
      renderer.nested template context scope.data
    | .compiled template => renderer.nested template context scope.data
    | .function render => do
      Run.note renderer.host (.included context)
      Run.ofExcept (render context)

mutual

def op [Callable φ] (scope : Scope φ) : Op → Run σ String
  | .content text => pure text
  | .literal literal escape => pure ((literal.value (φ := φ)).write escape)
  | .expression call escape => return (← renderer.expression call scope).write escape
  | .block call program none =>
    return (← renderer.block call scope { program := some (ops · program) }).render
  | .block call program (some inverse) =>
    return (← renderer.block call scope
      { program := some (ops · program), inverse := some (ops · inverse) }).render
  | .inclusion name context => renderer.inclusion name context scope

def ops [Callable φ] (scope : Scope φ) : List Op → Run σ String
  | [] => pure ""
  | next :: rest => do
    let text ← op scope next
    return text ++ (← ops scope rest)

end

end Renderer

end Stencil
