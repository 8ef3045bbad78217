import Stencil.Proofs.Render.Interpreter

/-!
# Rendering compiled nodes

A renderer interprets the nodes that its operations were compiled from. The way of look-up that is
settled for a tag when it is compiled says the same as the questions that the interpreter asks at
the tag, and everything a helper sees is the same.
-/

namespace Stencil

namespace Renderer

variable {φ σ : Type} (renderer : Renderer φ σ)

/-- The interpreter of the nodes that were compiled with the options of a renderer. -/
def interpreter : Interpreter φ σ where
  note := renderer.host.note
  helpers := renderer.environment.helpers
  options := renderer.options
  partials := fun name context data => renderer.inclusion name none { current := context, data := data }

theorem inclusion_eq_partials (name : String) (context : Option Expr) (scope : Scope φ) :
    renderer.inclusion name (context.map CompileOptions.valueParam) scope =
      renderer.interpreter.partials name
        ((context.map (Interpreter.value scope)).getD scope.current) scope.data := by
  rcases context with _ | (literal | path) <;> rfl

/-! ### Helpers at work -/

variable (scope : Scope φ) (bodies : Bodies φ σ)

theorem interpreter_entered (request : BodyRequest φ) :
    renderer.interpreter.entered scope request =
      scope.enter request.context (if renderer.options.data then request.data else none) := by
  rw [Interpreter.entered, Scope.enter]
  change Scope.mk _ _ (if renderer.options.data then _ else _) = _
  cases renderer.options.data <;> rfl

theorem interpreter_answer (request : BodyRequest φ) :
    renderer.interpreter.answer scope bodies request = renderer.answer scope bodies request := by
  rw [Interpreter.answer, answer, interpreter_entered]
  rfl

theorem interpreter_perform {α : Type} (action : Action φ α) :
    renderer.interpreter.perform scope bodies action = renderer.perform scope bodies action := by
  induction action with
  | done result => rfl
  | fail error => rfl
  | body request next ih => simp only [Interpreter.perform, perform, interpreter_answer, ih]

/-! ### Names -/

variable (path : Path) (call : Call)

/-- The way of look-up that is settled for a tag, in the words of the interpreter. -/
theorem resolution_cases :
    (renderer.interpreter.consults path = false ∧
      (renderer.options.invocable path call).resolution = .property) ∨
    (renderer.interpreter.consults path = true ∧ call.hasArguments = true ∧
      (renderer.options.invocable path call).resolution = .helper) ∨
    (renderer.interpreter.consults path = true ∧ call.hasArguments = false ∧
      ((renderer.options.invocable path call).resolution = .known ∨
        (renderer.options.invocable path call).resolution = .ambiguous)) := by
  simp only [CompileOptions.invocable, CompileOptions.resolution, Interpreter.consults, interpreter]
  generalize renderer.options.isKnown (path.segments.headD "") = known
  by_cases hsimple : path.isSimple = true
  · by_cases honly : renderer.options.knownHelpersOnly = true
    · cases known
      · simp [hsimple, honly]
      · by_cases harguments : call.hasArguments = true <;> simp [hsimple, harguments]
    · by_cases harguments : call.hasArguments = true
      · simp [hsimple, honly, harguments]
      · cases known <;> simp [hsimple, honly, harguments]
  · simp [hsimple]

theorem map_resolve_params :
    (renderer.options.invocable path call).params.map scope.resolve =
      call.params.map (renderer.interpreter.param scope) := by
  simp only [CompileOptions.invocable, List.map_map]
  apply List.map_congr_left
  intro expr _
  cases expr with
  | literal literal => rfl
  | path path =>
    change scope.resolve (if renderer.options.stringParams then _ else _) =
      if renderer.options.stringParams then _ else _
    cases renderer.options.stringParams <;> rfl

theorem map_contextOf_params :
    (if renderer.options.stringParams then
        (renderer.options.invocable path call).params.map scope.contextOf else []) =
      if renderer.options.stringParams then call.params.map (Interpreter.paramContext scope) else [] := by
  split
  · next h =>
    simp only [CompileOptions.invocable, List.map_map]
    apply List.map_congr_left
    intro expr _
    cases expr with
    | literal literal => rfl
    | path path => simp only [Function.comp_apply, CompileOptions.param, h]; rfl
  · rfl

theorem map_resolve_hash :
    ((renderer.options.invocable path call).hash.map fun entry => (entry.1, scope.resolve entry.2)) =
      call.hash.map fun entry => (entry.1, Interpreter.value scope entry.2) := by
  simp only [CompileOptions.invocable, List.map_map]
  apply List.map_congr_left
  rintro ⟨name, expr⟩ _
  cases expr <;> rfl

/-! ### Tags -/

def carryOut (isBlock : Bool) : Meaning φ → Run σ (Value φ)
  | .value value => pure value
  | .call helper params contexts =>
    renderer.call helper
      { invocation (renderer.options.invocable path call) scope bodies params contexts with
        isBlock := isBlock }
      scope bodies

theorem interpreter_tag [Callable φ] (isBlock : Bool) :
    renderer.interpreter.tag isBlock path call scope bodies =
      renderer.carryOut scope bodies path call isBlock
        (renderer.interpreter.meaning isBlock path call scope) := by
  rw [Interpreter.tag]
  split
  · next heq => rw [heq]; rfl
  · next heq =>
    rw [heq, carryOut, Renderer.call, invocation, map_resolve_hash]
    simp only [interpreter_perform]
    rfl

theorem invoke_eq_carryOut (helper : Helper φ) :
    renderer.invoke helper (renderer.options.invocable path call) scope bodies =
      renderer.carryOut scope bodies path call bodies.program.isSome
        (.call helper (call.params.map (renderer.interpreter.param scope))
          (if renderer.options.stringParams then call.params.map (Interpreter.paramContext scope)
            else [])) := by
  simp only [invoke, map_resolve_params, map_contextOf_params]
  rfl

theorem target_eq [Callable φ] :
    renderer.target (renderer.options.invocable path call) scope =
      match if renderer.interpreter.consults path then renderer.interpreter.helpers.find? path.text
        else none with
      | some helper => .helper helper
      | none => .ofFound (scope.find? path) := by
  rcases renderer.resolution_cases path call with ⟨hasks, hway⟩ | ⟨hasks, -, hway⟩ | ⟨hasks, -, hway⟩
  · simp only [target, hway, hasks]
    rfl
  · simp only [target, hway, hasks]
    rfl
  · rcases hway with hway | hway <;> simp only [target, hway, hasks] <;> rfl

theorem expression_eq_tag [Callable φ] :
    renderer.expression (renderer.options.invocable path call) scope =
      renderer.interpreter.tag false path call scope {} := by
  have hinvoke := renderer.invoke_eq_carryOut scope {} path call
  rw [interpreter_tag, expression, target_eq]
  cases hregistered : if renderer.interpreter.consults path then renderer.interpreter.helpers.find? path.text
    else none with
  | some helper =>
    rw [Interpreter.meaning_of_registered _ hregistered]
    exact hinvoke helper
  | none =>
    by_cases hfunction : ∃ handle, scope.find? path = some (.function handle)
    · obtain ⟨handle, hfound⟩ := hfunction
      rw [Interpreter.meaning_of_function _ hregistered hfound, hfound]
      exact hinvoke (.ofFunction handle)
    · have hvalue := not_exists.1 hfunction
      rw [Interpreter.meaning_of_value _ hregistered hvalue, Target.ofFound_of_value hvalue]
      have hmissing := hinvoke (renderer.environment.hook .helperMissing)
      rcases renderer.resolution_cases path call with
        ⟨hasks, hway⟩ | ⟨hasks, harguments, hway⟩ | ⟨hasks, harguments, hway⟩
      · simp only [hway, hasks]
        rfl
      · simp only [hway, hasks, harguments]
        exact hmissing
      · simp only [hasks, harguments]
        rcases hway with hway | hway <;> simp only [hway]
        all_goals
          cases scope.find? path with
          | none => exact hmissing
          | some value => rfl

theorem block_eq_tag [Callable φ] (hbodies : bodies.program.isSome = true) :
    renderer.block (renderer.options.invocable path call) scope bodies =
      renderer.interpreter.tag true path call scope bodies := by
  have hinvoke := renderer.invoke_eq_carryOut scope bodies path call
  rw [hbodies] at hinvoke
  rw [interpreter_tag, block, target_eq]
  cases hregistered : if renderer.interpreter.consults path then renderer.interpreter.helpers.find? path.text
    else none with
  | some helper =>
    rw [Interpreter.meaning_of_registered _ hregistered]
    exact hinvoke helper
  | none =>
    by_cases hfunction : ∃ handle, scope.find? path = some (.function handle)
    · obtain ⟨handle, hfound⟩ := hfunction
      rw [Interpreter.meaning_of_function _ hregistered hfound, hfound]
      exact hinvoke (.ofFunction handle)
    · have hvalue := not_exists.1 hfunction
      have hsection : ∀ (helper : Helper φ) (value : Value φ),
          renderer.call helper
              (invocation (renderer.options.invocable path call) scope bodies [value] []) scope bodies =
            renderer.carryOut scope bodies path call true (.call helper [value] []) := by
        intro helper value
        rw [carryOut, ← hbodies]
        rfl
      rw [Interpreter.meaning_of_value _ hregistered hvalue, Target.ofFound_of_value hvalue]
      rcases renderer.resolution_cases path call with
        ⟨hasks, hway⟩ | ⟨hasks, harguments, hway⟩ | ⟨hasks, harguments, hway⟩
      · simp only [hway, hasks]
        exact hsection _ _
      · simp only [hway, hasks, harguments]
        exact hinvoke (renderer.environment.hook .helperMissing)
      · simp only [hasks, harguments]
        rcases hway with hway | hway <;> simp only [hway]
        all_goals exact hsection _ _

/-! ### Nodes -/

mutual

theorem op_compile [Callable φ] (scope : Scope φ) (node : Node) :
    (match node.compile renderer.options with
      | some op => renderer.op scope op
      | none => pure "") = renderer.interpreter.node scope node := by
  match node with
  | .content text => simp only [Node.compile, Interpreter.node, op]
  | .comment text => rw [Node.compile, Interpreter.node]
  | .mustache call escaped =>
    rw [Node.compile, Interpreter.node]
    cases call.head with
    | literal literal => simp only [op]; rfl
    | path path => simp only [op, expression_eq_tag]
  | .block call program none =>
    have hprogram : (renderer.ops · (compileNodes renderer.options program)) =
        (renderer.interpreter.nodes · program) :=
      funext fun scope => ops_compileNodes scope program
    rw [Node.compile, Interpreter.node]
    cases call.head with
    | literal literal => rfl
    | path path => simp only [op, hprogram, block_eq_tag, Option.isSome_some]
  | .block call program (some inverse) =>
    have hprogram : (renderer.ops · (compileNodes renderer.options program)) =
        (renderer.interpreter.nodes · program) :=
      funext fun scope => ops_compileNodes scope program
    have hinverse : (renderer.ops · (compileNodes renderer.options inverse)) =
        (renderer.interpreter.nodes · inverse) :=
      funext fun scope => ops_compileNodes scope inverse
    rw [Node.compile, Interpreter.node]
    cases call.head with
    | literal literal => rfl
    | path path => simp only [op, hprogram, hinverse, block_eq_tag, Option.isSome_some]
  | .inclusion name context => simp only [Node.compile, Interpreter.node, op, inclusion_eq_partials]

/-- Rendering what nodes were compiled into is interpreting the nodes. -/
theorem ops_compileNodes [Callable φ] (scope : Scope φ) (nodes : List Node) :
    renderer.ops scope (compileNodes renderer.options nodes) =
      renderer.interpreter.nodes scope nodes := by
  match nodes with
  | [] => rw [compileNodes, ops, Interpreter.nodes]
  | node :: rest =>
    have hnode := op_compile scope node
    have hrest := ops_compileNodes scope rest
    rw [compileNodes, Interpreter.nodes, ← hnode, ← hrest]
    cases node.compile renderer.options with
    | none => simp only [pure_bind, String.empty_append, bind_pure]
    | some op => exact renderer.ops_prepend scope op _

end

end Renderer

theorem Template.run_compileNodes {φ σ : Type} [Callable φ] (host : Host φ σ) (environment : Environment φ)
    (options : CompileOptions) (limit : Nat) (nodes : List Node) (context : Value φ)
    (data : Option (Table (Value φ))) :
    Template.run host environment (limit + 1) ⟨compileNodes options nodes, options⟩ context data =
      (Renderer.interpreter ⟨host, environment, options, Template.run host environment limit⟩).nodes
        (options.root context data) nodes :=
  Renderer.ops_compileNodes ⟨host, environment, options, Template.run host environment limit⟩ _ nodes

end Stencil
