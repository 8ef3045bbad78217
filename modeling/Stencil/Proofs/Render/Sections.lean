import Stencil.Proofs.Render.Frames
import Stencil.Proofs.Render.Tags

/-!
# Sections and the blocks of the library

A section is a block whose name is that of a value, and a helper of the library can be given the
value as a parameter instead. Both come to the same as soon as they ask for the same bodies with the
same contexts, for either way leads through one block. A body that is not there renders as one
without nodes.
-/

namespace Stencil

variable {φ σ : Type}

def Builtin.block (builtin : Builtin) (expr : Expr) (span : Span) (program : List Node)
    (inverse : Option (List Node)) : Node :=
  .block ⟨.path ⟨builtin.name, 0, false, [builtin.name]⟩, [expr], [], span⟩ program inverse

def Path.block (path : Path) (span : Span) (program : List Node) (inverse : Option (List Node)) : Node :=
  .block ⟨.path path, [], [], span⟩ program inverse

/-! ### What is asked for -/

namespace Builtin

variable {invocation : Invocation φ} {value : Value φ}

theorem run_unless (hparams : invocation.params = [value]) :
    Builtin.unlessHelper.run invocation =
      Value.string <$> if value.isTruthy then Action.renderInverse else Action.renderBlock := by
  rw [run, hparams]
  rfl

theorem renderSection_array (items : List (Value φ)) : renderSection (.array items) = renderItems items :=
  rfl

theorem renderSection_of_isTruthy (htruthy : value.isTruthy = true) (harray : ∀ items, value ≠ .array items) :
    renderSection value = Action.renderBlock (some value) := by
  rw [renderSection.eq_def]
  split
  · next items => exact absurd rfl (harray items)
  · rw [if_pos htruthy]

end Builtin

namespace Environment

variable [Callable φ] {environment : Environment φ} {options : CompileOptions} {limit : Nat} {scope : Scope φ}

/-! ### Bodies -/

section

variable {program : List Node} {inverse : Option (List Node)}

/-- A body that a helper asks for renders its nodes, and none if it is not there. -/
theorem answer_bodies (request : BodyRequest φ) :
    ((environment.interpreter options limit).answer scope
        ((environment.interpreter options limit).bodies program inverse) request : Run σ _) =
      Run.attempt ((environment.interpreter options limit).nodes
        ((environment.interpreter options limit : Interpreter φ σ).entered scope request)
        (if request.inverse then inverse.getD [] else program)) := by
  rw [Interpreter.answer, Interpreter.bodies, Bodies.find?]
  cases request.inverse with
  | false => exact bind_pure (Run.attempt _)
  | true =>
    cases inverse with
    | none =>
      change _ = Run.attempt (Interpreter.nodes _ _ [])
      rw [Interpreter.nodes]
      rfl
    | some inverse => exact bind_pure (Run.attempt _)

/-- A helper cannot tell a body that is not there from one without nodes. -/
theorem perform_bodies_congr {inverse' : Option (List Node)} (hinverse : inverse.getD [] = inverse'.getD [])
    {α : Type} (action : Action φ α) :
    ((environment.interpreter options limit).perform scope
        ((environment.interpreter options limit).bodies program inverse) action : Run σ α) =
      (environment.interpreter options limit).perform scope
        ((environment.interpreter options limit).bodies program inverse') action := by
  induction action with
  | done result => rfl
  | fail error => rfl
  | body request next ih => simp only [Interpreter.perform, answer_bodies, hinverse, ih]

theorem perform_renderInverse_getD :
    ((environment.interpreter options limit).perform scope
        ((environment.interpreter options limit).bodies program inverse) Action.renderInverse : Run σ String) =
      (environment.interpreter options limit).nodes (scope.enter none none) (inverse.getD []) := by
  have hinverse : inverse.getD [] = (some (inverse.getD [])).getD [] := rfl
  rw [perform_bodies_congr hinverse, perform_renderInverse]

/-- A helper that chooses one of the bodies renders it where the block stands, with the current
context once more. -/
theorem perform_choice (condition : Bool) :
    ((environment.interpreter options limit).perform scope
        ((environment.interpreter options limit).bodies program inverse)
        (if condition then Action.renderBlock else Action.renderInverse) : Run σ String) =
      (environment.interpreter options limit).nodes (scope.enter none none)
        (if condition then program else inverse.getD []) := by
  cases condition with
  | true => exact perform_renderBlock none
  | false => exact perform_renderInverse_getD

end

/-! ### Blocks -/

theorem node_section {path : Path} (hname : path.isSimple = true → environment.helpers.find? path.text = none)
    (hfunction : (Interpreter.value scope (.path path)).isFunction = false)
    (hhook : options.knownHelpersOnly = true ∨ environment.hook .blockHelperMissing = .builtin .blockHelperMissing)
    (span : Span) (program : List Node) (inverse : Option (List Node)) :
    ((environment.interpreter options limit).node scope (path.block span program inverse) : Run σ String) =
      (environment.interpreter options limit).perform scope
        ((environment.interpreter options limit).bodies program inverse)
        (Builtin.renderSection (Interpreter.value scope (.path path))) := by
  have hnone : (environment.interpreter options limit : Interpreter φ σ).consults path = true →
      environment.helpers.find? path.text = none ∧ Call.hasArguments ⟨.path path, [], [], span⟩ = false := by
    intro hconsults
    rw [Interpreter.consults, Bool.and_eq_true] at hconsults
    exact ⟨hname hconsults.1, rfl⟩
  have hopens : (environment.interpreter options limit : Interpreter φ σ).Opens scope ⟨.path path, [], [], span⟩
      .blockHelperMissing (Interpreter.value scope (.path path)) := .property rfl hnone hfunction hhook
  obtain ⟨other, params, contexts, hhead, hmeaning, hvalue⟩ := hopens.meaning
  obtain rfl := Expr.path.inj hhead
  rw [Path.block, Interpreter.node_block, ← Interpreter.bodies, Interpreter.block]
  simp only [Interpreter.tag, hmeaning, observe_eq, pure_bind, Helper.run, Builtin.run, hvalue,
    Interpreter.perform_map, bind_assoc, Value.render, bind_pure]

section

variable (hknown : options.knownHelpersOnly = true → ∀ builtin : Builtin, options.isKnown builtin.name = true)
  (hparams : options.stringParams = false)
  (hregistered : ∀ builtin : Builtin, environment.helpers.find? builtin.name = some (.builtin builtin))

include hknown hparams hregistered

theorem node_builtin (builtin : Builtin) {expr : Expr} {action : Action φ String}
    (hrun : ∀ invocation : Invocation φ, invocation.params = [Interpreter.value scope expr] →
      builtin.run invocation = Value.string <$> action) (span : Span) (program : List Node)
    (inverse : Option (List Node)) :
    ((environment.interpreter options limit).node scope (builtin.block expr span program inverse) : Run σ String) =
      (environment.interpreter options limit).perform scope
        ((environment.interpreter options limit).bodies program inverse) action :=
  node_block_helper (fun honly => hknown honly builtin) hparams (hregistered builtin) hrun span program inverse

end

/-! ### Blocks that render alike -/

/-- In a scope, two nodes render to the same output or error, however deeply partials may be
nested. -/
def RendersAlike (environment : Environment φ) (options : CompileOptions) (scope : Scope φ) (left right : Node) :
    Prop :=
  ∀ limit,
    let renderer : Renderer φ Unit := ⟨.plain, environment, options, Template.run .plain environment limit⟩
    renderer.ops scope (compileNodes options [left]) = renderer.ops scope (compileNodes options [right])

theorem RendersAlike.of_node {left right : Node}
    (h : ∀ limit, ((environment.interpreter options limit).node scope left : Run Unit String) =
      (environment.interpreter options limit).node scope right) :
    environment.RendersAlike options scope left right := by
  intro limit renderer
  have hops : ∀ node, renderer.ops scope (compileNodes options [node]) =
      (environment.interpreter options limit).node scope node := by
    intro node
    exact (renderer.ops_compileNodes scope [node]).trans (Interpreter.nodes_singleton _ node scope)
  rw [hops, hops, h]

/-- **Sections and the blocks of the library agree.** Let the helpers of the library be registered
under their own names, and known if only known helpers may be called, in a template that passes
values for parameters. Take a path that is not the name of a helper and does not lead to a function.
Wherever it stands, `unless` renders as `if` with the two bodies exchanged; if its value is an
array, `each` renders as its section; and if its value counts as true and is no array, then `with`
does. Outputs and errors are the same, and it makes no difference whether a body is not there or has
no nodes. -/
theorem rendersAlike_section
    (hknown : options.knownHelpersOnly = true → ∀ builtin : Builtin, options.isKnown builtin.name = true)
    (hparams : options.stringParams = false)
    (hregistered : ∀ builtin : Builtin, environment.helpers.find? builtin.name = some (.builtin builtin))
    {path : Path} (hname : path.isSimple = true → environment.helpers.find? path.text = none)
    (hfunction : (Interpreter.value scope (.path path)).isFunction = false) (span span' : Span)
    {program : List Node} {program' inverse inverse' : Option (List Node)} (hprogram : program'.getD [] = program)
    (hinverse : inverse.getD [] = inverse'.getD []) :
    environment.RendersAlike options scope (Builtin.unlessHelper.block (.path path) span program inverse)
        (Builtin.ifHelper.block (.path path) span' (inverse'.getD []) program') ∧
      ((∃ items, Interpreter.value scope (.path path) = .array items) →
        environment.RendersAlike options scope (Builtin.eachHelper.block (.path path) span program inverse)
          (path.block span' program inverse')) ∧
      ((Interpreter.value scope (.path path)).isTruthy = true →
        (∀ items, Interpreter.value scope (.path path) ≠ .array items) →
        environment.RendersAlike options scope (Builtin.withHelper.block (.path path) span program inverse)
          (path.block span' program inverse')) := by
  have hhook : environment.hook .blockHelperMissing = .builtin .blockHelperMissing := by
    rw [hook, hregistered]
    rfl
  have hsection : ∀ limit,
      ((environment.interpreter options limit).node scope (path.block span' program inverse') : Run Unit String) =
        (environment.interpreter options limit).perform scope
          ((environment.interpreter options limit).bodies program inverse')
          (Builtin.renderSection (Interpreter.value scope (.path path))) :=
    fun limit => node_section hname hfunction (.inr hhook) span' program inverse'
  refine ⟨.of_node fun limit => ?_, ?_, ?_⟩
  · rw [node_builtin hknown hparams hregistered .unlessHelper fun _ => Builtin.run_unless,
      node_builtin hknown hparams hregistered .ifHelper fun _ => Builtin.run_if, perform_choice]
    cases (Interpreter.value scope (.path path)).isTruthy with
    | true => exact perform_renderInverse_getD.trans (by rw [hinverse]; rfl)
    | false => exact (perform_renderBlock none).trans (by rw [hprogram]; rfl)
  · rintro ⟨items, hitems⟩
    refine .of_node fun limit => ?_
    have hrun : ∀ invocation : Invocation φ, invocation.params = [Interpreter.value scope (.path path)] →
        Builtin.eachHelper.run invocation = Value.string <$> Builtin.renderItems items := by
      intro invocation hvalues
      exact Builtin.run_each (hvalues.trans (by rw [hitems]))
    rw [node_builtin hknown hparams hregistered .eachHelper hrun, hsection, hitems, Builtin.renderSection_array]
    exact perform_bodies_congr hinverse _
  · intro htruthy harray
    refine .of_node fun limit => ?_
    have hvalue : Interpreter.value scope (.path path) ≠ .null := by
      intro hnull
      rw [hnull] at htruthy
      cases htruthy
    rw [node_builtin hknown hparams hregistered .withHelper fun _ hvalues => Builtin.run_with hvalues hvalue,
      hsection, Builtin.renderSection_of_isTruthy htruthy harray]
    exact perform_bodies_congr hinverse _

/-- Blocks for a list and for an object of the context above, with bodies that look further
outward. -/
theorem rendersAlike_section_rooms :
    let name (text : String) (depth : Nat) (segment : String) : Path := ⟨text, depth, false, [segment]⟩
    let write (path : Path) : Node := .mustache ⟨.path path, [], [], ⟨0, 0⟩⟩ true
    let program : List Node := [write (name "name" 0 "name"), .content " of ", write (name "../../owner" 2 "owner")]
    let rooms : Path := name "../rooms" 1 "rooms"
    let house : Path := name "../house" 1 "house"
    let options : CompileOptions := { knownHelpersOnly := true }
    let environment : Environment Empty := {}
    let room (text : String) : Value Empty := .object [("name", .string text)]
    let scope : Scope Empty :=
      { current := .null
        outer := [.object [("house", room "H"), ("owner", .string "Ann"), ("rooms", .array [room "A", room "B"])]] }
    let renderer : Renderer Empty Unit := ⟨.plain, environment, options, Template.run .plain environment 0⟩
    environment.RendersAlike options scope (Builtin.eachHelper.block (.path rooms) ⟨0, 0⟩ program none)
        (rooms.block ⟨0, 0⟩ program (some [])) ∧
      environment.RendersAlike options scope (Builtin.withHelper.block (.path house) ⟨0, 0⟩ program none)
        (house.block ⟨0, 0⟩ program (some [])) ∧
      environment.RendersAlike options scope (Builtin.unlessHelper.block (.path house) ⟨0, 0⟩ program none)
        (Builtin.ifHelper.block (.path house) ⟨0, 0⟩ [] (some program)) ∧
      (renderer.ops scope (compileNodes options [rooms.block ⟨0, 0⟩ program (some [])]) ()).1 =
        .done "A of AnnB of Ann" ∧
      (renderer.ops scope (compileNodes options [house.block ⟨0, 0⟩ program (some [])]) ()).1 = .done "H of Ann" := by
  intro name write program rooms house options environment room scope renderer
  have hknown : options.knownHelpersOnly = true → ∀ builtin : Builtin, options.isKnown builtin.name = true := by
    intro _ builtin
    cases builtin <;> rfl
  have hregistered : ∀ builtin : Builtin,
      environment.helpers.find? builtin.name = some (.builtin builtin) := by
    intro builtin
    cases builtin <;> rfl
  have hprogram : (some program).getD [] = program := rfl
  have hinverse : (none : Option (List Node)).getD [] = (some []).getD [] := rfl
  have hscoped : ∀ path : Path, path.isSimple = false → path.isSimple = true →
      environment.helpers.find? path.text = none := fun _ hscoped hsimple => nomatch hscoped.symm.trans hsimple
  have hlist : (Interpreter.value scope (.path rooms)).isFunction = false := rfl
  have hobject : (Interpreter.value scope (.path house)).isFunction = false := rfl
  have hrooms :=
    rendersAlike_section hknown rfl hregistered (hscoped rooms rfl) hlist ⟨0, 0⟩ ⟨0, 0⟩ hprogram hinverse
  have hhouse :=
    rendersAlike_section hknown rfl hregistered (hscoped house rfl) hobject ⟨0, 0⟩ ⟨0, 0⟩ hprogram hinverse
  exact ⟨hrooms.2.1 ⟨_, rfl⟩, hhouse.2.2 rfl (fun _ => nofun), hhouse.1, by decide +kernel, by decide +kernel⟩

end Environment

end Stencil
