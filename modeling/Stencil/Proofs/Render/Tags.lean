import Mathlib.Data.List.Forall2
import Stencil.Proofs.Render.Refilling

/-!
# What single tags render

A name that no helper has names a property, and its tag writes the value. A helper that is called
with one parameter asks for bodies of its block, and each of them is rendered where the block
stands, with one more context on top. The conditions and lists of the library follow from that.
-/

namespace Stencil

variable {φ σ : Type}

theorem Run.attempt_ofExcept {α : Type} (run : Run σ α) :
    (do let result ← run.attempt; Run.ofExcept result) = run := by
  funext state
  rw [Run.bind_apply, Run.attempt]
  rcases run state with ⟨_ | _ | _, _⟩ <;> rfl

/-! ### Actions -/

namespace Interpreter

variable (interpreter : Interpreter φ σ)

def bodies [Callable φ] (program : List Node) (inverse : Option (List Node)) : Bodies φ σ :=
  ⟨some (interpreter.nodes · program), inverse.map fun nodes scope => interpreter.nodes scope nodes⟩

variable (scope : Scope φ) (bodies : Bodies φ σ)

theorem perform_bind {α β : Type} (action : Action φ α) (next : α → Action φ β) :
    interpreter.perform scope bodies (action >>= next) =
      (do
        let result ← interpreter.perform scope bodies action
        interpreter.perform scope bodies (next result)) := by
  induction action with
  | done result => rfl
  | fail error => rfl
  | body request answered ih =>
    have hnext : (Action.body request answered >>= next) =
        Action.body request fun answer => answered answer >>= next := rfl
    simp only [hnext, perform, ih, bind_assoc]

theorem perform_map {α β : Type} (change : α → β) (action : Action φ α) :
    interpreter.perform scope bodies (change <$> action) = do
      return change (← interpreter.perform scope bodies action) :=
  interpreter.perform_bind scope bodies action fun result => pure (change result)

theorem perform_render (request : BodyRequest φ) :
    interpreter.perform scope bodies (Action.render request) =
      (do
        let answer ← interpreter.answer scope bodies request
        Run.ofExcept answer) := by
  rw [Action.render]
  refine congrArg (interpreter.answer scope bodies request >>= ·) (funext fun answer => ?_)
  cases answer <;> rfl

theorem nodes_eq_join [Callable φ] {nodes : List Node} {texts : List String}
    (h : List.Forall₂ (fun node text => interpreter.node scope node = pure text) nodes texts) :
    interpreter.nodes scope nodes = pure (String.join texts) := by
  induction h with
  | nil => rfl
  | cons hnode _ ih =>
    rw [Interpreter.nodes, hnode, pure_bind, ih, pure_bind, String.join_cons]

end Interpreter

/-! ### What helpers of the library do -/

namespace Builtin

variable {invocation : Invocation φ} {value : Value φ}

theorem run_if (hparams : invocation.params = [value]) :
    Builtin.ifHelper.run invocation =
      Value.string <$> if value.isTruthy then Action.renderBlock else Action.renderInverse := by
  rw [run, hparams]
  rfl

theorem run_each {items : List (Value φ)} (hparams : invocation.params = [.array items]) :
    Builtin.eachHelper.run invocation = Value.string <$> renderItems items := by
  rw [run, hparams]
  rfl

theorem run_with (hparams : invocation.params = [value]) (hvalue : value ≠ .null) :
    Builtin.withHelper.run invocation = Value.string <$> Action.renderBlock (some value) := by
  have hnull : value.isNull = false := by
    cases value with
    | null => exact absurd rfl hvalue
    | _ => rfl
  simp only [Builtin.run, hparams, List.headD_cons, hnull]
  rfl

end Builtin

namespace Environment

variable [Callable φ] {environment : Environment φ} {options : CompileOptions} {limit : Nat} {scope : Scope φ}

/-! ### Bodies -/

section

variable {bodies : Bodies φ σ} {body : Body φ σ}

theorem observe_eq (event : Event φ) :
    (environment.interpreter options limit : Interpreter φ σ).observe event = pure () :=
  rfl

/-- A body that is asked for is rendered with one more context, and with the data frame of the
block. -/
theorem perform_render {inverse : Bool} (hbody : bodies.find? inverse = some body) (context : Option (Value φ)) :
    (environment.interpreter options limit).perform scope bodies
        (Action.render { inverse := inverse, context := context }) =
      body (scope.enter context none) := by
  let request : BodyRequest φ := { inverse := inverse, context := context }
  have hscope : Interpreter.entered (environment.interpreter options limit : Interpreter φ σ) scope request =
      scope.enter context none := by
    rw [Interpreter.entered, Scope.enter]
    change Scope.mk _ _ (if options.data then none.or scope.data else scope.data) = _
    cases options.data <;> rfl
  have hanswer : (environment.interpreter options limit).answer scope bodies request =
      Run.attempt (body (scope.enter context none)) := by
    rw [← hscope, Interpreter.answer, hbody]
    exact bind_pure (Run.attempt (body _))
  rw [Interpreter.perform_render, hanswer, Run.attempt_ofExcept]

end

section

variable {program : List Node} {inverse : Option (List Node)}

theorem perform_renderBlock (context : Option (Value φ)) :
    ((environment.interpreter options limit).perform scope
        ((environment.interpreter options limit).bodies program inverse) (Action.renderBlock context) : Run σ String) =
      (environment.interpreter options limit).nodes (scope.enter context none) program := by
  have hbody : Bodies.find? ((environment.interpreter options limit : Interpreter φ σ).bodies program inverse) false =
      some ((environment.interpreter options limit).nodes · program) := rfl
  exact perform_render hbody context

theorem perform_renderInverse (inverse : List Node) :
    ((environment.interpreter options limit).perform scope
        ((environment.interpreter options limit).bodies program (some inverse)) Action.renderInverse : Run σ String) =
      (environment.interpreter options limit).nodes (scope.enter none none) inverse := by
  have hbody :
      Bodies.find? ((environment.interpreter options limit : Interpreter φ σ).bodies program (some inverse)) true =
        some ((environment.interpreter options limit).nodes · inverse) := rfl
  exact perform_render hbody none

theorem perform_renderEach {α : Type} {rows : List α} {value : α → Value φ} {text : α → String}
    (htext : ∀ row ∈ rows,
      ((environment.interpreter options limit).nodes (scope.enter (some (value row)) none) program : Run σ String) =
        pure (text row)) :
    ((environment.interpreter options limit).perform scope
        ((environment.interpreter options limit).bodies program inverse) (Builtin.renderEach (rows.map value)) :
      Run σ String) = pure (String.join (rows.map text)) := by
  induction rows with
  | nil => rfl
  | cons row rows ih =>
    rw [List.forall_mem_cons] at htext
    rw [List.map_cons, Builtin.renderEach, Interpreter.perform_bind, perform_renderBlock, htext.1, pure_bind,
      Interpreter.perform_bind, ih htext.2, pure_bind, List.map_cons, String.join_cons]
    rfl

end

/-! ### Tags -/

/-- A name that no helper has, in a tag without arguments, names a property. -/
theorem node_property {path : Path} {value : Value φ} (hhelper : environment.helpers.find? path.text = none)
    (hvalue : scope.find? path = some value) (hfunction : value.isFunction = false) (span : Span)
    (escaped : Bool) :
    ((environment.interpreter options limit).node scope (.mustache ⟨.path path, [], [], span⟩ escaped) :
      Run σ String) = pure (value.write escaped) := by
  have hfound : (environment.interpreter options limit : Interpreter φ σ).helpers.find? path.text = none := hhelper
  have hmeaning : (environment.interpreter options limit : Interpreter φ σ).meaning false path
      ⟨.path path, [], [], span⟩ scope = .value value := by
    simp only [Interpreter.meaning, hfound, hvalue, ite_self]
    cases value with
    | function handle => simp [Value.isFunction] at hfunction
    | _ => simp [Call.hasArguments]
  simp only [Interpreter.node, Interpreter.tag, hmeaning, pure_bind]

section

variable {name : String} {helper : Helper φ}

theorem meaning_registered (hknown : options.knownHelpersOnly = true → options.isKnown name = true)
    (hfind : environment.helpers.find? name = some helper) (isBlock : Bool) (scope : Scope φ) (expr : Expr)
    (span : Span) :
    (environment.interpreter options limit : Interpreter φ σ).meaning isBlock ⟨name, 0, false, [name]⟩
        ⟨.path ⟨name, 0, false, [name]⟩, [expr], [], span⟩ scope =
      .call helper [(environment.interpreter options limit : Interpreter φ σ).param scope expr]
        (if options.stringParams then [Interpreter.paramContext scope expr] else []) := by
  have hconsults : (environment.interpreter options limit : Interpreter φ σ).consults
      ⟨name, 0, false, [name]⟩ = true := by
    change (true && (!options.knownHelpersOnly || options.isKnown name)) = true
    cases honly : options.knownHelpersOnly with
    | false => rfl
    | true => rw [hknown honly]; rfl
  have hfound : (environment.interpreter options limit : Interpreter φ σ).helpers.find? name = some helper := hfind
  simp only [Interpreter.meaning, hconsults, hfound, List.map_cons, List.map_nil]
  rfl

variable (hknown : options.knownHelpersOnly = true → options.isKnown name = true)
  (hparams : options.stringParams = false) (hfind : environment.helpers.find? name = some helper)

include hknown hparams hfind

theorem meaning_helper (isBlock : Bool) (scope : Scope φ) (expr : Expr) (span : Span) :
    (environment.interpreter options limit : Interpreter φ σ).meaning isBlock ⟨name, 0, false, [name]⟩
        ⟨.path ⟨name, 0, false, [name]⟩, [expr], [], span⟩ scope =
      .call helper [Interpreter.value scope expr] [] := by
  have hstring : (environment.interpreter options limit : Interpreter φ σ).options.stringParams = false :=
    hparams
  have hparam : (environment.interpreter options limit : Interpreter φ σ).param scope expr =
      Interpreter.value scope expr := by
    cases expr with
    | literal literal => rfl
    | path found =>
      rw [Interpreter.param, hstring]
      rfl
  rw [meaning_registered hknown hfind, hparam, hparams]
  rfl

theorem tag_helper {expr : Expr} {action : Action φ (Value φ)}
    (hrun : ∀ invocation : Invocation φ, invocation.params = [Interpreter.value scope expr] →
      helper.run invocation = action) (isBlock : Bool) (span : Span) (bodies : Bodies φ σ) :
    (environment.interpreter options limit).tag isBlock ⟨name, 0, false, [name]⟩
        ⟨.path ⟨name, 0, false, [name]⟩, [expr], [], span⟩ scope bodies =
      (environment.interpreter options limit).perform scope bodies action := by
  simp only [Interpreter.tag, meaning_helper hknown hparams hfind, observe_eq, pure_bind]
  rw [hrun _ rfl]

theorem node_block_helper {expr : Expr} {action : Action φ String}
    (hrun : ∀ invocation : Invocation φ, invocation.params = [Interpreter.value scope expr] →
      helper.run invocation = Value.string <$> action) (span : Span) (program : List Node)
    (inverse : Option (List Node)) :
    ((environment.interpreter options limit).node scope
        (.block ⟨.path ⟨name, 0, false, [name]⟩, [expr], [], span⟩ program inverse) : Run σ String) =
      (environment.interpreter options limit).perform scope
        ((environment.interpreter options limit).bodies program inverse) action := by
  rw [Interpreter.node_block, ← Interpreter.bodies, Interpreter.block]
  simp only [tag_helper hknown hparams hfind hrun, Interpreter.perform_map, bind_assoc, pure_bind,
    Value.render, bind_pure]

theorem node_helper {expr : Expr} {value : Value φ}
    (hrun : ∀ invocation : Invocation φ, invocation.params = [Interpreter.value scope expr] →
      helper.run invocation = pure value) (span : Span) (escaped : Bool) :
    ((environment.interpreter options limit).node scope
        (.mustache ⟨.path ⟨name, 0, false, [name]⟩, [expr], [], span⟩ escaped) : Run σ String) =
      pure (value.write escaped) := by
  simp only [Interpreter.node, tag_helper hknown hparams hfind hrun]
  rfl

end

section

variable (hparams : options.stringParams = false)

include hparams

theorem node_if (hknown : options.knownHelpersOnly = true → options.isKnown "if" = true)
    (hfind : environment.helpers.find? "if" = some (.builtin .ifHelper)) (expr : Expr) (span : Span)
    (program inverse : List Node) :
    ((environment.interpreter options limit).node scope
        (.block ⟨.path ⟨"if", 0, false, ["if"]⟩, [expr], [], span⟩ program (some inverse)) : Run σ String) =
      (environment.interpreter options limit).nodes (scope.enter none none)
        (if (Interpreter.value scope expr).isTruthy then program else inverse) := by
  rw [node_block_helper hknown hparams hfind fun _ => Builtin.run_if]
  split
  · exact perform_renderBlock none
  · exact perform_renderInverse inverse

theorem node_each (hknown : options.knownHelpersOnly = true → options.isKnown "each" = true)
    (hfind : environment.helpers.find? "each" = some (.builtin .eachHelper)) {expr : Expr} {α : Type}
    {rows : List α} {value : α → Value φ} (hrows : Interpreter.value scope expr = .array (rows.map value))
    {text : α → String} {program : List Node}
    (htext : ∀ row ∈ rows,
      ((environment.interpreter options limit).nodes (scope.enter (some (value row)) none) program : Run σ String) =
        pure (text row)) (span : Span) (inverse : List Node) :
    ((environment.interpreter options limit).node scope
        (.block ⟨.path ⟨"each", 0, false, ["each"]⟩, [expr], [], span⟩ program (some inverse)) : Run σ String) =
      if rows = [] then (environment.interpreter options limit).nodes (scope.enter none none) inverse
      else pure (String.join (rows.map text)) := by
  have hrun : ∀ invocation : Invocation φ, invocation.params = [Interpreter.value scope expr] →
      Builtin.eachHelper.run invocation = Value.string <$> Builtin.renderItems (rows.map value) := by
    intro invocation hvalues
    rw [hrows] at hvalues
    exact Builtin.run_each hvalues
  rw [node_block_helper hknown hparams hfind hrun]
  cases rows with
  | nil => exact perform_renderInverse inverse
  | cons row rows => exact perform_renderEach htext

end

end Environment

end Stencil
