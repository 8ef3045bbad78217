import Stencil.Proofs.Render.Agreement

/-!
# Rendering is interpretation

A whole template can be interpreted without being compiled, and so can its partials: a partial that
is a text is parsed at its tag, a partial that is a template has its nodes, and only a function is
called. Compiling a template and its partials and then rendering gives what interpretation gives:
the same output, the same error and the same calls of helpers in the same order. In particular the
name of a tag is looked up by the rules of `Interpreter.meaning`.
-/

namespace Stencil

/-- The nodes of a template and the options it is to be compiled with. -/
structure ParsedTemplate where
  nodes : List Node
  options : CompileOptions

def ParsedTemplate.compile (template : ParsedTemplate) : Template :=
  ⟨compileNodes template.options template.nodes, template.options⟩

inductive ParsedPartial (φ : Type) where
  | source (source : SourcePartial)
  | template (template : ParsedTemplate)
  | function (render : Value φ → Except RenderError String)

def ParsedPartial.compile {φ : Type} : ParsedPartial φ → Partial φ
  | .source registered => .source registered
  | .template parsed => .compiled parsed.compile
  | .function call => .function call

/-- An environment whose templates are not compiled yet. -/
structure ParsedEnvironment (φ : Type) where
  helpers : Table (Helper φ) := Helper.builtins
  partials : Table (ParsedPartial φ) := []
  data : Option (Table (Value φ)) := none

def ParsedEnvironment.compile {φ : Type} (environment : ParsedEnvironment φ) : Environment φ where
  helpers := environment.helpers
  partials := environment.partials.map fun entry => (entry.1, entry.2.compile)
  data := environment.data

variable {φ σ : Type}

/-- Renders the partial of a name for a template that tracks data or does not. -/
def ParsedEnvironment.renderPartial (environment : ParsedEnvironment φ) (note : Event φ → σ → σ)
    (nested : ParsedTemplate → Value φ → Option (Table (Value φ)) → Run σ String) (trackData : Bool)
    (name : String) (context : Value φ) (data : Option (Table (Value φ))) : Run σ String :=
  match environment.partials.find? name with
  | none => Run.fail (.partialNotFound name)
  | some (.source registered) =>
    match parse registered.text with
    | .ok nodes => nested ⟨nodes, { data := trackData }⟩ context data
    | .error error => Run.fail (.unparsable error)
  | some (.template parsed) => nested parsed context data
  | some (.function call) => fun state => Run.ofExcept (call context) (note (.included context) state)

namespace ParsedTemplate

def interpreter (template : ParsedTemplate) (note : Event φ → σ → σ) (environment : ParsedEnvironment φ)
    (nested : ParsedTemplate → Value φ → Option (Table (Value φ)) → Run σ String) : Interpreter φ σ where
  note := note
  helpers := environment.helpers
  options := template.options
  partials := environment.renderPartial note nested template.options.data

/-- Interprets a template, with at most so many partials inside one another. -/
def interpret [Callable φ] (note : Event φ → σ → σ) (environment : ParsedEnvironment φ) :
    Nat → ParsedTemplate → Value φ → Option (Table (Value φ)) → Run σ String
  | 0, _, _, _ => Run.exhausted
  | limit + 1, template, context, data =>
    (template.interpreter note environment (interpret note environment limit)).nodes
      (template.options.root context data) template.nodes

theorem interpret_succ [Callable φ] (note : Event φ → σ → σ) (environment : ParsedEnvironment φ) (limit : Nat)
    (template : ParsedTemplate) (context : Value φ) (data : Option (Table (Value φ))) :
    template.interpret note environment (limit + 1) context data =
      (template.interpreter note environment (interpret note environment limit)).nodes
        (template.options.root context data) template.nodes :=
  rfl

def render [Callable φ] (template : ParsedTemplate) (context : Value φ)
    (environment : ParsedEnvironment φ) : Outcome String :=
  (template.interpret (fun _ state => state) environment Template.nestingLimit context
    environment.data ()).1

end ParsedTemplate

theorem Table.find?_map {α β : Type} (change : α → β) (name : String) (table : Table α) :
    Table.find? name (table.map fun entry => (entry.1, change entry.2)) =
      (table.find? name).map change := by
  induction table with
  | nil => rfl
  | cons entry rest ih =>
    rw [List.map_cons, Table.find?, Table.find?]
    split
    · rfl
    · exact ih

theorem Template.compile_eq (source : String) (options : CompileOptions) :
    Template.compile source options =
      (parse source).map fun nodes => ParsedTemplate.compile ⟨nodes, options⟩ := by
  rw [Template.compile]
  cases parse source <;> rfl

theorem Template.compile_of_parse {source : String} {nodes : List Node} (h : parse source = .ok nodes)
    (options : CompileOptions) :
    Template.compile source options = .ok ⟨compileNodes options nodes, options⟩ := by
  rw [Template.compile_eq, h]
  rfl

section

variable [Callable φ] (note : Event φ → σ → σ) (environment : ParsedEnvironment φ)

omit [Callable φ] in
theorem inclusion_compile (nested : Template → Value φ → Option (Table (Value φ)) → Run σ String)
    (options : CompileOptions) (name : String) (context : Option Param) (scope : Scope φ) :
    Renderer.inclusion ⟨.noting note, environment.compile, options, nested⟩ name context scope =
      environment.renderPartial note (fun template => nested template.compile) options.data name
        ((context.map scope.resolve).getD scope.current) scope.data := by
  have hfind : environment.compile.partials.find? name =
      (environment.partials.find? name).map ParsedPartial.compile :=
    Table.find?_map ParsedPartial.compile name environment.partials
  have hcontext : ∀ renderer : Renderer φ σ, renderer.inclusion name context scope =
      renderer.inclusion name none
        { current := (context.map scope.resolve).getD scope.current, data := scope.data } := by
    intro renderer
    cases context <;> rfl
  rw [hcontext, Renderer.inclusion, ParsedEnvironment.renderPartial, hfind]
  rcases environment.partials.find? name with _ | (registered | parsed | call)
  · rfl
  · funext state
    have hcompile := Template.compile_eq registered.text (SourcePartial.options options.data)
    simp only [Option.map_some, ParsedPartial.compile, Run.bind_apply, Run.compile, Host.noting, hcompile]
    rcases parse registered.text with error | nodes
    · rfl
    · rfl
  · rfl
  · rfl

theorem run_compile (limit : Nat) (template : ParsedTemplate) :
    template.compile.run (.noting note) environment.compile limit =
      template.interpret note environment limit := by
  induction limit generalizing template with
  | zero => rfl
  | succ limit ih =>
    funext context data
    have hinterpreter : Renderer.interpreter ⟨.noting note, environment.compile, template.options,
          Template.run (.noting note) environment.compile limit⟩ =
        template.interpreter note environment (ParsedTemplate.interpret note environment limit) := by
      rw [Renderer.interpreter, ParsedTemplate.interpreter]
      congr 1
      funext name context data
      rw [inclusion_compile]
      exact congrArg (environment.renderPartial note · _ _ _ _) (funext ih)
    rw [Template.run, ParsedTemplate.interpret, ← hinterpreter]
    exact Renderer.ops_compileNodes _ _ _

/-- **Rendering is interpretation.** Compiling and rendering a source has the outcome, and takes
note of the events, that the interpretation of its nodes has; and what does not parse does
neither. -/
theorem render_compile_eq_interpretation (source : String) (options : CompileOptions)
    (context : Value φ) :
    (∀ limit data,
      (Template.compile source options).map
          (fun template => template.run (.noting note) environment.compile limit context data) =
        (parse source).map
          (fun nodes => ParsedTemplate.interpret note environment limit ⟨nodes, options⟩ context data)) ∧
    (Template.compile source options).map (fun template => template.render context environment.compile) =
      (parse source).map (fun nodes => ParsedTemplate.render ⟨nodes, options⟩ context environment) := by
  rw [Template.compile_eq]
  rcases parse source with error | nodes
  · exact ⟨fun _ _ => rfl, rfl⟩
  · constructor
    · intro limit data
      simp only [Except.map, run_compile]
    · have hrun := run_compile (σ := Unit) (fun _ state => state) environment Template.nestingLimit
        ⟨nodes, options⟩
      simp only [Except.map, ParsedTemplate.render, ← hrun]
      rfl

end

end Stencil
