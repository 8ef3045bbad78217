import Stencil.Demo.Page
import Stencil.Proofs.Render.Interpretation
import Stencil.Proofs.Render.Tags

/-!
# Partials and their nodes

A partial is rendered from a root of its own, by a template of its own. Its nodes see the scope of
the tag instead when they stand in the place of the tag. As long as no path in them leaves the
partial, both render alike: the scopes agree as far as the nodes reach, the options read tags in the
same way, and the partial merely takes one more step of nesting. A partial with a context is a block
of the helper `with` in the same way.
-/

namespace Stencil

variable {φ σ : Type} [Callable φ] {environment : Environment φ} {options : CompileOptions}

/-! ### Nodes in a block of `with` -/

def withBlock (expr : Expr) (span : Span) (nodes : List Node) : Node :=
  .block ⟨.path ⟨"with", 0, false, ["with"]⟩, [expr], [], span⟩ nodes none

theorem nodes_withBlock (hknown : options.knownHelpersOnly = true → options.isKnown "with" = true)
    (hparams : options.stringParams = false)
    (hwith : environment.helpers.find? "with" = some (.builtin .withHelper)) {scope : Scope φ} {expr : Expr}
    (hvalue : Interpreter.value scope expr ≠ .null) (span : Span) (nodes : List Node) (limit : Nat) :
    ((environment.interpreter options limit).nodes scope [withBlock expr span nodes] : Run σ String) =
      (environment.interpreter options limit).nodes
        (scope.enter (some (Interpreter.value scope expr)) none) nodes := by
  rw [Interpreter.nodes_singleton, withBlock, Environment.node_block_helper hknown hparams hwith
    fun _ hvalues => Builtin.run_with hvalues hvalue, Environment.perform_renderBlock]

/-! ### Partials -/

variable {name : String} {source : SourcePartial} {nodes : List Node}

theorem partials_source (hpartial : environment.partials.find? name = some (.source source))
    (hparse : parse source.text = .ok nodes) (limit : Nat) (context : Value φ)
    (data : Option (Table (Value φ))) :
    ((environment.interpreter options limit).partials name context data : Run σ String) =
      Template.run .silent environment limit
        ⟨compileNodes (SourcePartial.options options.data) nodes, SourcePartial.options options.data⟩
        context data := by
  have hcompile := Template.compile_eq source.text (SourcePartial.options options.data)
  rw [hparse] at hcompile
  change Renderer.inclusion _ name none _ = _
  simp only [Renderer.inclusion, hpartial, Run.compile_silent, hcompile]
  rfl

section

variable (hhelpers : options.knownHelpersOnly = false) (hparams : options.stringParams = false)
  (hpartial : environment.partials.find? name = some (.source source))
  (hparse : parse source.text = .ok nodes) (hreach : Node.allReach nodes = 0)
  (spoiled : σ → Prop) {scope : Scope φ} (hscope : scope.Tracked options)

theorem alike_partial (hhelpers : options.knownHelpersOnly = false)
    (hparams : options.stringParams = false) : options.Alike (SourcePartial.options options.data) where
  data := rfl
  stringParams := hparams
  knownHelpersOnly := hhelpers
  isKnown := fun honly => nomatch hhelpers.symm.trans honly

omit [Callable φ] in
include hscope in
/-- Nodes that do not leave a partial cannot tell its root from the place of its tag. -/
theorem agree_root :
    (CompileOptions.root (SourcePartial.options options.data) scope.current scope.data).Agree 0 scope := by
  constructor
  · intro depth hdepth
    obtain rfl := Nat.le_zero.1 hdepth
    rfl
  · change (if options.data then scope.data else none) = scope.data
    cases hdata : options.data with
    | false => exact (hscope hdata).symm
    | true => rfl

include hhelpers hparams hpartial hparse hreach hscope

theorem partial_approximates_nodes (limit : Nat) :
    (Run.approximation spoiled).Related
      ((environment.interpreter options limit).partials name scope.current scope.data)
      ((environment.interpreter options limit).nodes scope nodes) := by
  rw [partials_source hpartial hparse]
  cases limit with
  | zero => exact Run.exhausted_approximation _
  | succ limit =>
    have hinterpreter := Environment.interpreter_related (alike_partial hhelpers hparams).symm
      (Template.run_approximation spoiled environment limit 1)
    rw [Template.run_succ_eq_nodes]
    exact hinterpreter.nodes (agree_root hscope) nodes (Nat.le_of_eq hreach)

theorem nodes_approximate_partial (limit : Nat) :
    (Run.approximation spoiled).Related
      ((environment.interpreter options limit).nodes scope nodes)
      ((environment.interpreter options (limit + 1)).partials name scope.current scope.data) := by
  have hinterpreter := Environment.interpreter_related (alike_partial hhelpers hparams)
    (Template.run_approximation spoiled environment limit 0)
  rw [partials_source hpartial hparse, Template.run_succ_eq_nodes]
  exact hinterpreter.nodes (agree_root hscope).symm nodes (Nat.le_of_eq hreach)

end

/-- **Including a partial is inlining it.** Take a template that may call any helper and passes
values for parameters, and a partial that is a text whose nodes do not reach beyond its root. The
tag of the partial, anywhere in the template, can be replaced by the nodes, without a change to the
output or the error; and if the tag has a context, it can be replaced by the nodes in a block of the
built-in `with`, as long as the context is not null in any scope in which rendering comes to the
tag. -/
theorem inclusion_eq_inlining (hhelpers : options.knownHelpersOnly = false)
    (hparams : options.stringParams = false)
    (hpartial : environment.partials.find? name = some (.source source))
    (hparse : parse source.text = .ok nodes) (hreach : Node.allReach nodes = 0) (gap : Gap)
    (context : Value φ) (outcome : Outcome String) :
    ((gap.template options [.inclusion name none]).Yields context environment outcome ↔
      (gap.template options nodes).Yields context environment outcome) ∧
    (environment.helpers.find? "with" = some (.builtin .withHelper) → ∀ (expr : Expr) (span : Span),
      gap.YieldsWhere options [.inclusion name (some expr)] context environment
          (fun scope => Interpreter.value scope expr ≠ .null) outcome ↔
        gap.YieldsWhere options [withBlock expr span nodes] context environment
          (fun scope => Interpreter.value scope expr ≠ .null) outcome) := by
  have hinclusion : ∀ {τ : Type} (limit : Nat) (expr : Option Expr) (scope : Scope φ),
      ((environment.interpreter options limit).nodes scope [.inclusion name expr] : Run τ String) =
        (environment.interpreter options limit).partials name
          ((expr.map (Interpreter.value scope)).getD scope.current) scope.data := by
    intro τ limit expr scope
    rw [Interpreter.nodes_singleton, Interpreter.node]
  constructor
  · rw [← Gap.yieldsWhere_true_iff, ← Gap.yieldsWhere_true_iff]
    constructor
    · refine Gap.YieldsWhere.refill 0 fun limit scope hscope _ => ?_
      rw [hinclusion]
      exact partial_approximates_nodes hhelpers hparams hpartial hparse hreach _ hscope limit
    · refine Gap.YieldsWhere.refill 1 fun limit scope hscope _ => ?_
      rw [hinclusion]
      exact nodes_approximate_partial hhelpers hparams hpartial hparse hreach _ hscope limit
  · intro hwith expr span
    have hknown : options.knownHelpersOnly = true → options.isKnown "with" = true :=
      fun honly => nomatch hhelpers.symm.trans honly
    have hinside : ∀ scope : Scope φ, scope.Tracked options →
        (scope.enter (some (Interpreter.value scope expr)) none).Tracked options :=
      fun _ hscope => hscope
    constructor
    · refine Gap.YieldsWhere.refill 0 fun limit scope hscope hvalue => ?_
      rw [hinclusion, nodes_withBlock hknown hparams hwith hvalue]
      exact partial_approximates_nodes hhelpers hparams hpartial hparse hreach _
        (hinside scope hscope) limit
    · refine Gap.YieldsWhere.refill 1 fun limit scope hscope hvalue => ?_
      rw [hinclusion, nodes_withBlock hknown hparams hwith hvalue]
      exact nodes_approximate_partial hhelpers hparams hpartial hparse hreach _
        (hinside scope hscope) limit

/-- The row of a section reaches the context of the section from inside a block of its own. -/
theorem inclusion_eq_inlining_row :
    let row : List Node := [.block ⟨.path ⟨"if", 0, false, ["if"]⟩, [.path ⟨"big", 0, false, ["big"]⟩],
      [], ⟨3, 9⟩⟩ [.mustache ⟨.path ⟨"../name", 1, false, ["name"]⟩, [], [], ⟨13, 20⟩⟩ true] none]
    let gap : Gap := .inProgram [] ⟨.path ⟨"people", 0, false, ["people"]⟩, [], [], ⟨3, 9⟩⟩
      (.here [] [.content ","]) none []
    let context : Value Empty := .object [("people", .array
      [.object [("big", .boolean true), ("name", .string "Ann")],
        .object [("big", .boolean false), ("name", .string "Bob")]])]
    let environment : Environment Empty := { partials := [("row",
      .source ⟨"\x7b\x7b#if big\x7d\x7d\x7b\x7b../name\x7d\x7d\x7b\x7b/if\x7d\x7d", 0⟩)] }
    let person : Expr := .path ⟨"this", 0, true, []⟩
    (gap.template {} row).Yields context environment (.done "Ann,,") ∧
      gap.YieldsWhere {} [withBlock person ⟨0, 0⟩ row] context environment
        (fun scope => Interpreter.value scope person ≠ .null) (.done "Ann,,") := by
  intro row gap context environment person
  have hparse : parse "\x7b\x7b#if big\x7d\x7d\x7b\x7b../name\x7d\x7d\x7b\x7b/if\x7d\x7d" = .ok row := rfl
  have hpartial : environment.partials.find? "row" = some (.source ⟨_, 0⟩) := rfl
  have hvisits : (gap.watch {} [.inclusion "row" (some person)] context environment 2 []).2.all
      (fun scope => !(Interpreter.value scope person).isNull) = true := by decide +kernel
  have hhelpers : CompileOptions.knownHelpersOnly {} = false := rfl
  obtain ⟨hplain, hwith⟩ :=
    inclusion_eq_inlining hhelpers rfl hpartial hparse rfl gap context (.done "Ann,,")
  refine ⟨hplain.1 ⟨by decide, 2, by decide +kernel⟩, (hwith rfl person ⟨0, 0⟩).1 ⟨by decide, 2, ?_, ?_⟩⟩
  · decide +kernel
  · intro scope hscope hnull
    have hvalue := List.all_eq_true.1 hvisits scope hscope
    rw [hnull] at hvalue
    nomatch hvalue

end Stencil
