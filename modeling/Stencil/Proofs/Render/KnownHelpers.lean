import Stencil.Demo.Page
import Stencil.Proofs.Markup.Heads
import Stencil.Proofs.Render.Comparison
import Stencil.Proofs.Render.Interpretation
import Stencil.Proofs.Render.Refilling

/-!
# Known helpers

Where any helper may be called, it makes no difference which are declared known: a tag asks the
helpers for its name in either case, and what it does next depends on their answer and on what the
name leads to.

Where only known helpers may be called, other names are properties, and sections are those of the
library. This takes nothing from a template that has arguments only for known helpers, with helpers
and hooks that would not answer otherwise. The two ways of rendering still differ in what they do: a
name that leads nowhere is null in one of them, and in the other it is a call of the library's
`helperMissing`, which yields null.
-/

namespace Stencil

variable {φ σ : Type} [Callable φ]

/-! ### Declarations -/

theorem Template.run_eq_of_alike {options options' : CompileOptions} (halike : options.Alike options')
    (host : Host φ σ) (environment : Environment φ) (limit : Nat) (nodes : List Node) (context : Value φ)
    (data : Option (Table (Value φ))) :
    Template.run host environment limit ⟨compileNodes options nodes, options⟩ context data =
      Template.run host environment limit ⟨compileNodes options' nodes, options'⟩ context data := by
  cases limit with
  | zero => rfl
  | succ limit =>
    have hrelated : Renderer.Related (Run.equality σ)
        ⟨host, environment, options', Template.run host environment limit⟩
        ⟨host, environment, options', Template.run host environment limit⟩ :=
      { environment := rfl
        options := rfl
        note := fun _ => rfl
        compile := fun _ _ => rfl
        nested := fun _ _ _ => rfl }
    have hroot : options.root context data = options'.root context data := by
      rw [CompileOptions.root, CompileOptions.root, halike.data]
    rw [Template.run_compileNodes, Template.run_compileNodes, hroot]
    exact (hrelated.interpreter halike).nodes (.refl _ _) nodes (Nat.le_refl _)

/-- **Declarations of known helpers are hints.** Take options under which any helper may be called,
and that differ in nothing but which helpers are declared known. A source that parses compiles with
both, and the two templates render to the same output or error, and call the same helpers. -/
theorem render_eq_of_declarations {source : String} {nodes : List Node} (hparse : parse source = .ok nodes)
    {options options' : CompileOptions} (hany : options.knownHelpersOnly = false)
    (hany' : options'.knownHelpersOnly = false) (hstring : options.stringParams = options'.stringParams)
    (hdata : options.data = options'.data) :
    ∃ template template', Template.compile source options = .ok template ∧
      Template.compile source options' = .ok template' ∧
      ∀ (environment : Environment φ) (context : Value φ),
        (∀ (host : Host φ σ) limit data,
          template.run host environment limit context data =
            template'.run host environment limit context data) ∧
        template.render context environment = template'.render context environment := by
  have halike : options.Alike options' :=
    { data := hdata
      stringParams := hstring
      knownHelpersOnly := hany.trans hany'.symm
      isKnown := fun honly => nomatch hany.symm.trans honly }
  refine ⟨_, _, Template.compile_of_parse hparse options, Template.compile_of_parse hparse options',
    fun environment context => ⟨fun host limit data => ?_, ?_⟩⟩
  · exact Template.run_eq_of_alike halike host environment limit nodes context data
  · have hrun := Template.run_eq_of_alike halike .plain environment Template.nestingLimit nodes context
      environment.data
    exact congrArg Prod.fst (congrFun hrun ())

/-- A helper of the library that is declared not to be known, and a property that is declared to be
a helper. -/
theorem render_eq_of_declarations_if :
    let declared : CompileOptions := { knownHelpers := [("if", false), ("title", true)] }
    let source := "\x7b\x7b#if on\x7d\x7d\x7b\x7btitle\x7d\x7d\x7b\x7b/if\x7d\x7d"
    ∃ template template', Template.compile source declared = .ok template ∧
      Template.compile source {} = .ok template' ∧ ∀ (environment : Environment Empty) (context : Value Empty),
        template.render context environment = template'.render context environment := by
  have hparse : parse "\x7b\x7b#if on\x7d\x7d\x7b\x7btitle\x7d\x7d\x7b\x7b/if\x7d\x7d" = .ok
      [.block ⟨.path ⟨"if", 0, false, ["if"]⟩, [.path ⟨"on", 0, false, ["on"]⟩], [], ⟨3, 8⟩⟩
        [.mustache ⟨.path ⟨"title", 0, false, ["title"]⟩, [], [], ⟨12, 17⟩⟩ true] none] := rfl
  have hany : CompileOptions.knownHelpersOnly { knownHelpers := [("if", false), ("title", true)] } = false := rfl
  have hany' : CompileOptions.knownHelpersOnly {} = false := rfl
  obtain ⟨template, template', hcompile, hcompile', h⟩ :=
    render_eq_of_declarations (φ := Empty) (σ := Unit) hparse hany hany' rfl rfl
  exact ⟨template, template', hcompile, hcompile', fun environment context => (h environment context).2⟩

/-! ### Only known helpers -/

/-- The path heads a tag with the call, at any depth of the nodes. -/
def Path.Heads (path : Path) (call : Call) (nodes : List Node) : Prop :=
  ∃ node : Node, node.Among nodes ∧ node.call? = some call ∧ call.head = .path path

/-- Two interpreters, of which one may only call known helpers, where the hooks are those of the
library. Of calls of the library's helpers no note is taken. -/
structure Interpreter.Restricts (restricted free : Interpreter φ σ) : Prop where
  note : restricted.note = free.note
  unnoted : ∀ invocation state, free.note (.called true invocation) state = state
  helpers : restricted.helpers = free.helpers
  options : restricted.options = { free.options with knownHelpersOnly := true }
  any : free.options.knownHelpersOnly = false
  helperMissing : free.hook .helperMissing = .builtin .helperMissing
  blockHelperMissing : free.hook .blockHelperMissing = .builtin .blockHelperMissing

namespace Interpreter.Restricts

variable {restricted free : Interpreter φ σ} (h : restricted.Restricts free) {path : Path} {call : Call}

include h

omit [Callable φ] in
theorem hook_eq (builtin : Builtin) : restricted.hook builtin = free.hook builtin := by
  rw [hook, hook, h.helpers]

omit [Callable φ] in
theorem consults_cases (path : Path) :
    restricted.consults path = free.consults path ∨
      (restricted.consults path = false ∧ free.consults path = true ∧ path.isSimple = true ∧
        free.options.isKnown (path.segments.headD "") = false) := by
  have hrestricted : restricted.consults path =
      (path.isSimple && free.options.isKnown (path.segments.headD "")) := by
    rw [consults, h.options]
    rfl
  have hfree : free.consults path = path.isSimple := by
    rw [consults, h.any]
    exact Bool.and_true _
  rw [hrestricted, hfree]
  cases path.isSimple with
  | false => exact .inl rfl
  | true =>
    cases free.options.isKnown (path.segments.headD "") with
    | false => exact .inr ⟨rfl, rfl, rfl, rfl⟩
    | true => exact .inl rfl

/-- A tag means the same to both, or it has a name that leads nowhere. -/
theorem meaning_cases
    (harguments : path.isSimple = true → free.options.isKnown (path.segments.headD "") = false →
      call.hasArguments = false)
    (hregistered : path.isSimple = true → free.options.isKnown (path.segments.headD "") = false →
      free.helpers.find? path.text = none)
    (isBlock : Bool) (scope : Scope φ) :
    restricted.meaning isBlock path call scope = free.meaning isBlock path call scope ∨
      (restricted.meaning isBlock path call scope = .value .null ∧ ∃ params contexts,
        free.meaning isBlock path call scope = .call (.builtin .helperMissing) params contexts) := by
  have hstring : restricted.options.stringParams = free.options.stringParams := by rw [h.options]
  have honly : restricted.options.knownHelpersOnly = true := by rw [h.options]
  have hparam : restricted.param scope = free.param scope := by
    funext expr
    cases expr with
    | literal literal => rfl
    | path found => rw [param, param, hstring]
  rcases h.consults_cases path with hsame | ⟨hunasked, hasked, hsimple, hunknown⟩
  · left
    rw [meaning, meaning]
    simp only [hsame, h.helpers, hstring, hparam, honly, h.any, h.hook_eq, h.blockHelperMissing, ite_self]
  · have hskipped : (if restricted.consults path then restricted.helpers.find? path.text else none) = none := by
      rw [hunasked]
      rfl
    have hunanswered : (if free.consults path then free.helpers.find? path.text else none) = none := by
      rw [if_pos hasked]
      exact hregistered hsimple hunknown
    by_cases hfunction : ∃ handle, scope.find? path = some (.function handle)
    · obtain ⟨handle, hfound⟩ := hfunction
      left
      rw [meaning_of_function _ hskipped hfound, meaning_of_function _ hunanswered hfound, hparam, hstring]
    · have hvalue := not_exists.1 hfunction
      rw [meaning_of_value _ hskipped hvalue, meaning_of_value _ hunanswered hvalue]
      simp only [hunasked, hasked, harguments hsimple hunknown, hstring, hparam, honly, h.any, h.helperMissing,
        h.blockHelperMissing]
      cases isBlock with
      | true => exact .inl rfl
      | false =>
        cases scope.find? path with
        | none => exact .inr ⟨rfl, _, _, rfl⟩
        | some value => exact .inl rfl

theorem tag_eq
    (harguments : path.isSimple = true → free.options.isKnown (path.segments.headD "") = false →
      call.hasArguments = false)
    (hregistered : path.isSimple = true → free.options.isKnown (path.segments.headD "") = false →
      free.helpers.find? path.text = none)
    (isBlock : Bool) (scope : Scope φ) (bodies : Bodies φ σ) :
    restricted.tag isBlock path call scope bodies = free.tag isBlock path call scope bodies := by
  rcases h.meaning_cases harguments hregistered isBlock scope with hsame | ⟨hnull, params, contexts, hmissing⟩
  · have hdata : restricted.options.data = free.options.data := by rw [h.options]
    exact tag_eq_of_meaning h.note hdata hsame bodies
  · rw [tag, tag, hnull, hmissing]
    funext state
    simp only [Run.bind_apply, observe, Helper.isBuiltin, h.unnoted]
    rfl

end Interpreter.Restricts

omit [Callable φ] in
theorem Environment.hook_eq_builtin {environment : Environment φ} {builtin : Builtin}
    (h : ∀ helper, environment.helpers.find? builtin.name = some helper → helper = .builtin builtin) :
    environment.hook builtin = .builtin builtin := by
  rw [hook]
  cases hfound : environment.helpers.find? builtin.name with
  | none => rfl
  | some helper => exact h helper hfound

/-- What lets nodes do with known helpers only: simple heads with arguments are known, those without
are known or not registered, and the hooks are those of the library or absent. -/
structure CompileOptions.Suffice (options : CompileOptions) (environment : Environment φ) (nodes : List Node) :
    Prop where
  arguments : ∀ path call, Path.Heads path call nodes → path.isSimple = true → call.hasArguments = true →
    options.isKnown path.text = true
  registered : ∀ path call, Path.Heads path call nodes → path.isSimple = true →
    options.isKnown path.text = false → environment.helpers.find? path.text = none
  hooks : ∀ builtin ∈ [Builtin.helperMissing, .blockHelperMissing], ∀ helper,
    environment.helpers.find? builtin.name = some helper → helper = .builtin builtin

section

variable {source : String} {nodes : List Node} (hparse : parse source = .ok nodes) {options : CompileOptions}
  {environment : Environment φ} (hsuffice : options.Suffice environment nodes) {host : Host φ σ}
  (hunnoted : ∀ invocation state, host.note (.called true invocation) state = state)

omit [Callable φ] in
include hsuffice hunnoted in
theorem CompileOptions.Suffice.restricts
    (nested : Template → Value φ → Option (Table (Value φ)) → Run σ String) :
    (Renderer.interpreter ⟨host, environment, { options with knownHelpersOnly := true }, nested⟩).Restricts
      (Renderer.interpreter ⟨host, environment, { options with knownHelpersOnly := false }, nested⟩) where
  note := rfl
  unnoted := hunnoted
  helpers := rfl
  options := rfl
  any := rfl
  helperMissing := Environment.hook_eq_builtin (hsuffice.hooks _ (by simp))
  blockHelperMissing := Environment.hook_eq_builtin (hsuffice.hooks _ (by simp))

include hparse hsuffice hunnoted

/-- Where known helpers suffice, nodes have the same runs whether other helpers may be called or
not. -/
theorem Template.run_eq_of_suffice (limit : Nat) (context : Value φ) (data : Option (Table (Value φ))) :
    Template.run host environment limit ⟨compileNodes { options with knownHelpersOnly := true } nodes,
        { options with knownHelpersOnly := true }⟩ context data =
      Template.run host environment limit ⟨compileNodes { options with knownHelpersOnly := false } nodes,
        { options with knownHelpersOnly := false }⟩ context data := by
  cases limit with
  | zero => rfl
  | succ limit =>
    have hrestricts := hsuffice.restricts hunnoted (Template.run host environment limit)
    rw [Template.run_compileNodes, Template.run_compileNodes]
    refine Interpreter.nodes_eq_of_tag ?_ ?_ _
    · intro node call path hnode hcall hhead isBlock scope bodies
      have hheads : path.Heads call nodes := ⟨node, hnode, hcall, hhead⟩
      have hsegments := segments_of_parse hparse hnode hcall hhead
      refine hrestricts.tag_eq (fun hsimple hunknown => ?_) (fun hsimple hunknown => ?_) isBlock scope bodies
      · rw [hsegments hsimple] at hunknown
        by_contra hgiven
        have hknown := hsuffice.arguments path call hheads hsimple (by simpa using hgiven)
        exact Bool.false_ne_true (hunknown.symm.trans hknown)
      · rw [hsegments hsimple] at hunknown
        exact hsuffice.registered path call hheads hsimple hunknown
    · intro name context hinclusion
      have hdata : CompileOptions.data { options with knownHelpersOnly := true } =
          CompileOptions.data { options with knownHelpersOnly := false } := rfl
      have hpartials := Renderer.inclusion_of_data hdata host environment (Template.run host environment limit)
      funext context data
      exact congrFun (congrFun (congrFun hpartials name) none) _

end

/-- **To call known helpers only is no more than a restriction.** Take a source and an environment
such that the simple heads of the source with arguments are known helpers, those that are not known
are not registered, and the hooks are those of the library or absent. The source compiles to a
template that may only call known helpers and to one that may call any, and the two render to the
same output or error, partials and all. Only a host that takes note of calls of the library's own
helpers can tell them apart. -/
theorem render_eq_of_suffice {source : String} {nodes : List Node} (hparse : parse source = .ok nodes)
    {options : CompileOptions} {environment : Environment φ} (hsuffice : options.Suffice environment nodes) :
    ∃ only any, Template.compile source { options with knownHelpersOnly := true } = .ok only ∧
      Template.compile source { options with knownHelpersOnly := false } = .ok any ∧
      ∀ context : Value φ,
        (∀ host : Host φ σ, (∀ invocation state, host.note (.called true invocation) state = state) →
          ∀ limit data, only.run host environment limit context data =
            any.run host environment limit context data) ∧
        only.render context environment = any.render context environment := by
  refine ⟨_, _, Template.compile_of_parse hparse _, Template.compile_of_parse hparse _,
    fun context => ⟨fun host hunnoted limit data => ?_, ?_⟩⟩
  · exact Template.run_eq_of_suffice hparse hsuffice hunnoted limit context data
  · have hplain : ∀ invocation state, (Host.plain : Host φ Unit).note (.called true invocation) state = state :=
      fun _ _ => rfl
    have hrun := Template.run_eq_of_suffice hparse hsuffice hplain Template.nestingLimit context
      environment.data
    exact congrArg Prod.fst (congrFun hrun ())

/-- A condition and a section with a partial, which calls a helper that the source does not name. -/
theorem render_eq_of_suffice_partial :
    let source := "\x7b\x7b#if on\x7d\x7d\x7b\x7btitle\x7d\x7d\x7b\x7b/if\x7d\x7d" ++
      "\x7b\x7b#rows\x7d\x7d\x7b\x7b> row\x7d\x7d\x7b\x7b/rows\x7d\x7d"
    let environment : Environment Empty :=
      { helpers := Helper.builtins.insert "loud" (.custom fun _ => pure (.string "!"))
        partials := [("row", .source ⟨"\x7b\x7bloud 1\x7d\x7d", 0⟩)] }
    ∃ only any, Template.compile source { knownHelpersOnly := true } = .ok only ∧
      Template.compile source {} = .ok any ∧
      ∀ context, only.render context environment = any.render context environment := by
  intro source environment
  let nodes : List Node :=
    [.block ⟨.path ⟨"if", 0, false, ["if"]⟩, [.path ⟨"on", 0, false, ["on"]⟩], [], ⟨3, 8⟩⟩
      [.mustache ⟨.path ⟨"title", 0, false, ["title"]⟩, [], [], ⟨12, 17⟩⟩ true] none,
    .block ⟨.path ⟨"rows", 0, false, ["rows"]⟩, [], [], ⟨29, 33⟩⟩ [.inclusion "row" none] none]
  have hparse : parse source = .ok nodes := by
    unfold source
    rfl
  have hsuffice : CompileOptions.Suffice {} environment nodes := by
    refine ⟨?_, ?_, ?_⟩
    case refine_3 =>
      intro builtin hbuiltin helper hfound
      simp only [List.mem_cons, List.not_mem_nil, or_false] at hbuiltin
      rcases hbuiltin with rfl | rfl <;> exact (Option.some.inj hfound).symm
    all_goals
      rintro path call ⟨node, hnode, hcall, hhead⟩
      simp only [nodes, Node.among_cons_iff, Node.within_iff, Node.inside, Node.not_among_nil, or_false,
        Option.getD_none, List.append_nil] at hnode
      rcases hnode with (rfl | rfl) | rfl | rfl
      case inr.inr => cases hcall
      all_goals
        obtain rfl := Option.some.inj hcall
        obtain rfl := Expr.path.inj hhead
        decide
  obtain ⟨only, any, honly, hany, h⟩ := render_eq_of_suffice (σ := Unit) hparse hsuffice
  exact ⟨only, any, honly, hany, fun context => (h context).2⟩

end Stencil
