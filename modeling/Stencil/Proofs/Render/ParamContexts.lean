import Stencil.Demo.Page
import Stencil.Proofs.Render.Interpretation
import Stencil.Proofs.Render.Invariance
import Stencil.Proofs.Render.Termination

/-!
# Contexts of parameters

A helper is told where each of its parameters would have been looked up, if the template passes
parameters as their text. The parameters of a tag and their contexts are made from the same
expressions, so there is one context for each parameter. A section has no expression for the value
that its hook gets as the only parameter, and there is no context for it.
-/

namespace Stencil

variable {φ σ : Type}

/-! ### Parameters and their contexts -/

namespace Interpreter

variable {interpreter : Interpreter φ σ}

/-- A block is a section: its name is not that of a helper, as far as helpers are asked, and neither
are there arguments then, and the value of its name is not a function. -/
structure IsSection (interpreter : Interpreter φ σ) (isBlock : Bool) (path : Path) (call : Call) (scope : Scope φ) :
    Prop where
  isBlock : isBlock = true
  unregistered : interpreter.consults path = true →
    interpreter.helpers.find? path.text = none ∧ call.hasArguments = false
  isFunction : (value scope (.path path)).isFunction = false

variable [Callable φ] {isBlock : Bool} {path : Path} {call : Call} {scope : Scope φ} {helper : Helper φ}
  {params contexts : List (Value φ)}

/-- What is called gets the parameters of the tag with their contexts, or the value of a section
without a context. -/
theorem params_of_meaning (h : interpreter.meaning isBlock path call scope = .call helper params contexts) :
    (¬interpreter.IsSection isBlock path call scope ∧ params = call.params.map (interpreter.param scope) ∧
      contexts = if interpreter.options.stringParams then call.params.map (paramContext scope) else []) ∨
    (interpreter.IsSection isBlock path call scope ∧ params = [value scope (.path path)] ∧ contexts = []) := by
  simp only [meaning] at h
  split at h
  · next found hfound =>
    obtain ⟨-, rfl, rfl⟩ := Meaning.call.inj h
    refine .inl ⟨fun hsection => ?_, rfl, rfl⟩
    split at hfound
    · next hconsults =>
      rw [(hsection.unregistered hconsults).1] at hfound
      cases hfound
    · cases hfound
  · next handle _ hvalue =>
    obtain ⟨-, rfl, rfl⟩ := Meaning.call.inj h
    refine .inl ⟨fun hsection => ?_, rfl, rfl⟩
    have hisFunction := hsection.isFunction
    rw [value, hvalue] at hisFunction
    cases hisFunction
  · next hfound hvalue =>
    split at h
    · next harguments =>
      obtain ⟨-, rfl, rfl⟩ := Meaning.call.inj h
      rw [Bool.and_eq_true] at harguments
      refine .inl ⟨fun hsection => ?_, rfl, rfl⟩
      exact Bool.noConfusion (harguments.2.symm.trans (hsection.unregistered harguments.1).2)
    · next harguments =>
      split at h
      · next hblock =>
        obtain ⟨-, rfl, rfl⟩ := Meaning.call.inj h
        refine .inr ⟨⟨hblock, fun hconsults => ⟨?_, ?_⟩, ?_⟩, rfl, rfl⟩
        · rwa [if_pos hconsults] at hfound
        · rwa [hconsults, Bool.true_and, Bool.not_eq_true] at harguments
        · rw [value]
          rcases hfind : scope.find? path with _ | (_ | _ | _ | _ | _ | _ | _ | handle)
          case some.function => exact absurd hfind (hvalue handle)
          all_goals rfl
      · next hblock =>
        split at h
        · obtain ⟨-, rfl, rfl⟩ := Meaning.call.inj h
          exact .inl ⟨fun hsection => hblock hsection.isBlock, rfl, rfl⟩
        · cases h

/-- A call that is not that of a section has one context for each parameter, and that of a section
has a parameter without a context. -/
theorem Calls.length_eq_iff {nodes : List Node} {invocation : Invocation φ}
    (h : interpreter.Calls nodes path call scope helper invocation)
    (hstrings : interpreter.options.stringParams = true) :
    invocation.contexts.length = invocation.params.length ↔
      ¬interpreter.IsSection invocation.isBlock path call scope := by
  rcases params_of_meaning h.meaning with ⟨hsection, hparams, hcontexts⟩ | ⟨hsection, hparams, hcontexts⟩
  · rw [hparams, hcontexts, if_pos hstrings, List.length_map, List.length_map]
    exact iff_of_true rfl hsection
  · rw [hparams, hcontexts]
    exact iff_of_false Nat.zero_ne_one (not_not_intro hsection)

theorem Calls.contexts_eq_nil {nodes : List Node} {invocation : Invocation φ}
    (h : interpreter.Calls nodes path call scope helper invocation)
    (hstrings : interpreter.options.stringParams = false) : invocation.contexts = [] := by
  rcases params_of_meaning h.meaning with ⟨-, -, hcontexts⟩ | ⟨-, -, hcontexts⟩
  · rw [hcontexts, hstrings]
    rfl
  · exact hcontexts

end Interpreter

/-! ### The calls of a template -/

/-- Runs of which the second does the same and leaves some events out. -/
def Run.selection (φ : Type) : Run.Congruence (List (Event φ)) (List (Event φ)) :=
  Run.simulation fun events events' => events'.Sublist events

/-- A run calls nothing but what the tags among some nodes call somewhere. -/
def Run.calling [Callable φ] (interpreter : Interpreter φ (List (Event φ))) (nodes : List Node) :
    Run.Invariant φ (List (Event φ)) where
  Holds _ run := ∀ events isBuiltin invocation, .called isBuiltin invocation ∈ (run events).2 →
    .called isBuiltin invocation ∈ events ∨
      ∃ path call scope helper, interpreter.Calls nodes path call scope helper invocation
  pure_holds _ _ := fun _ _ _ => .inl
  bind_holds := by
    intro α β scope run next hrun hnext events isBuiltin invocation hmem
    have hfirst := hrun events isBuiltin invocation
    rw [Run.bind_apply] at hmem
    rcases heq : run events with ⟨result | error | _, between⟩
    all_goals rw [heq] at hmem hfirst
    · rcases hnext result between isBuiltin invocation hmem with hbetween | hcalls
      · exact hfirst hbetween
      · exact .inr hcalls
    · exact hfirst hmem
    · exact hfirst hmem

namespace Run.calling

variable [Callable φ] {interpreter : Interpreter φ (List (Event φ))} {nodes : List Node} {scope : Scope φ}

theorem of_state_eq {α : Type} {run : Run (List (Event φ)) α} (h : ∀ events, (run events).2 = events) :
    (Run.calling interpreter nodes).Holds scope run := by
  intro events isBuiltin invocation hmem
  rw [h] at hmem
  exact .inl hmem

theorem of_event {run : Run (List (Event φ)) Unit} {event : Event φ}
    (h : ∀ events, run events = (.done (), events ++ [event]))
    (hevent : ∀ isBuiltin invocation, event = .called isBuiltin invocation →
      ∃ path call scope helper, interpreter.Calls nodes path call scope helper invocation) :
    (Run.calling interpreter nodes).Holds scope run := by
  intro events isBuiltin invocation hmem
  rw [h, List.mem_append, List.mem_singleton] at hmem
  exact hmem.imp_right fun heq => hevent isBuiltin invocation heq.symm

theorem of_isCall {run : Run (List (Event φ)) Unit} {event : Event φ}
    (h : ∀ events, run events = (.done (), events ++ [event])) (hevent : event.isCall = false) :
    (Run.calling interpreter nodes).Holds scope run := by
  refine of_event h ?_
  rintro isBuiltin invocation rfl
  cases hevent

theorem attempt {α : Type} {inner : Scope φ} {run : Run (List (Event φ)) α}
    (h : (Run.calling interpreter nodes).Holds inner run) :
    (Run.calling interpreter nodes).Holds scope run.attempt := by
  intro events isBuiltin invocation hmem
  have hrun := h events isBuiltin invocation
  rw [Run.attempt] at hmem
  rcases heq : run events with ⟨result | error | _, after⟩
  all_goals
    rw [heq] at hmem hrun
    exact hrun hmem

end Run.calling

/-! ### Templates -/

variable [Callable φ]

theorem Template.run_silent_state (environment : Environment φ) (limit : Nat) (template : Template)
    (context : Value φ) (data : Option (Table (Value φ))) (state : σ) :
    (template.run .silent environment limit context data state).2 = state :=
  (run_approximation (· = state) environment limit 0 template context data state).1 rfl

namespace Environment

/-- Renders templates with the given options and keeps the events of their own tags. What happens in
partials is not kept. -/
def ownRenderer (environment : Environment φ) (options : CompileOptions) (limit : Nat) :
    Renderer φ (List (Event φ)) :=
  ⟨.recording, environment, options, Template.run .silent environment limit⟩

theorem ownRenderer_keeps (environment : Environment φ) (options : CompileOptions) (limit : Nat)
    (nodes : List Node) :
    (environment.ownRenderer options limit).interpreter.Keeps
      (Run.calling (environment.ownRenderer options limit).interpreter nodes) nodes where
  tag := by
    apply Interpreter.tag_holds
    · exact fun scope error => Run.calling.of_state_eq fun _ => rfl
    · intro scope request body hbody
      refine Run.Invariant.bind_holds _ (Run.calling.of_isCall (fun _ => rfl) rfl) fun _ => ?_
      refine Run.Invariant.bind_holds _ (Run.calling.attempt hbody) fun text => ?_
      refine Run.Invariant.bind_holds _ (Run.calling.of_isCall (fun _ => rfl) rfl) fun _ => ?_
      exact Run.Invariant.pure_holds _ scope text
    · intro path call scope helper invocation hcalls
      refine Run.calling.of_event (fun _ => rfl) ?_
      rintro _ _ ⟨⟩
      exact ⟨path, call, scope, helper, hcalls⟩
  inclusion := by
    intro name context _ scope value
    change Run.Invariant.Holds _ scope
      ((environment.ownRenderer options limit).inclusion name none ⟨value, [], scope.data⟩)
    rw [Renderer.inclusion.eq_def]
    rcases (environment.ownRenderer options limit).environment.partials.find? name with
      _ | (source | template | render)
    · exact Run.calling.of_state_eq fun _ => rfl
    · refine Run.Invariant.bind_holds _ (Run.calling.of_state_eq ?_) fun template =>
        Run.calling.of_state_eq (Template.run_silent_state environment limit template _ _)
      intro events
      have hcompile : Run.compile (Host.recording : Host φ _) source options.data = _ :=
        Run.compile_silent (φ := φ) source options.data
      show (Run.compile (Host.recording : Host φ _) source options.data events).2 = events
      rw [hcompile]
      exact Run.ofExcept_state _ events
    · exact Run.calling.of_state_eq (Template.run_silent_state environment limit template _ _)
    · refine Run.Invariant.bind_holds _ ?_ fun _ => Run.calling.of_state_eq (Run.ofExcept_state _)
      exact Run.calling.of_isCall (fun _ => rfl) rfl

/-- The events that are kept are some of those of the whole rendering, which does the same. -/
theorem ownRenderer_selection (environment : Environment φ) (options : CompileOptions) (limit : Nat)
    (nodes : List Node) (context : Value φ) (data : Option (Table (Value φ))) :
    (Run.selection φ).Related
      (Template.run .recording environment (limit + 1) ⟨compileNodes options nodes, options⟩ context data)
      ((environment.ownRenderer options limit).ops (options.root context data) (compileNodes options nodes)) := by
  have hcompile : ∀ source trackData, (Run.selection φ).Related
      (Run.compile (Host.recording : Host φ _) source trackData)
      (Run.compile (Host.silent : Host φ _) source trackData) :=
    Run.compile_silent_related (φ := φ) (Run.selection φ)
  have hskip : ∀ event : Event φ, (Run.selection φ).Related (Run.note .recording event) (Run.note .silent event) :=
    fun event events events' hevents => ⟨rfl, hevents.trans (List.sublist_append_left events [event])⟩
  have hstart : ∀ template context data, (Run.selection φ).Related
      (Template.run .recording environment 0 template context data)
      (Template.run .silent environment 0 template context data) :=
    fun _ _ _ _ _ hevents => ⟨rfl, hevents⟩
  have hnested : ∀ template context data, (Run.selection φ).Related
      (Template.run .recording environment (0 + limit) template context data)
      (Template.run .silent environment (0 + limit) template context data) :=
    Template.run_related hskip hcompile hstart limit
  rw [Nat.zero_add] at hnested
  have hrelated : Renderer.Related (Run.selection φ)
      ⟨.recording, environment, options, Template.run .recording environment limit⟩
      (environment.ownRenderer options limit) :=
    { environment := rfl
      options := rfl
      note := fun event events events' hevents => ⟨rfl, hevents.append (List.Sublist.refl [event])⟩
      compile := hcompile
      nested := hnested }
  exact hrelated.linked.ops hrelated.inclusion _ _

end Environment

/-- **Contexts are parallel to parameters, except for sections.** Render a template and keep the
events of its own tags; they are some of those of the whole rendering, which does the same. Each
call among them is that of a tag of the template in some scope. If the template passes parameters as
their text, then there is one context for each parameter, exactly if the call is not that of a
section. If it passes values, there are no contexts. -/
theorem length_contexts_iff (environment : Environment φ) (options : CompileOptions) (limit : Nat)
    (nodes : List Node) (context : Value φ) (data : Option (Table (Value φ))) :
    let renderer := environment.ownRenderer options limit
    let own := renderer.ops (options.root context data) (compileNodes options nodes) []
    let whole := Template.run .recording environment (limit + 1) ⟨compileNodes options nodes, options⟩ context data []
    (own.1 = whole.1 ∧ own.2.Sublist whole.2) ∧
    ∀ isBuiltin invocation, .called isBuiltin invocation ∈ own.2 →
      ∃ path call scope helper, renderer.interpreter.Calls nodes path call scope helper invocation ∧
        (options.stringParams = true → (invocation.contexts.length = invocation.params.length ↔
          ¬renderer.interpreter.IsSection invocation.isBlock path call scope)) ∧
        (options.stringParams = false → invocation.contexts = []) := by
  intro renderer own whole
  obtain ⟨houtcome, hevents⟩ :=
    environment.ownRenderer_selection options limit nodes context data [] [] (List.Sublist.refl [])
  refine ⟨⟨houtcome.symm, hevents⟩, ?_⟩
  intro isBuiltin invocation hmem
  have hnodes : own = renderer.interpreter.nodes (options.root context data) nodes [] :=
    congrFun (renderer.ops_compileNodes (options.root context data) nodes) []
  rw [hnodes] at hmem
  rcases (environment.ownRenderer_keeps options limit nodes).nodes (options.root context data) [] isBuiltin invocation
    hmem with hnone | ⟨path, call, scope, helper, hcalls⟩
  · cases hnone
  · exact ⟨path, call, scope, helper, hcalls, hcalls.length_eq_iff, hcalls.contexts_eq_nil⟩

/-- A tag with two parameters and a section behind it. -/
theorem length_contexts_iff_two_tags :
    let environment : Environment Empty := { helpers := [("h", .custom fun _ => pure .null)] }
    let options : CompileOptions := { stringParams := true }
    let name (text : String) : Path := ⟨text, 0, false, [text]⟩
    let nodes : List Node :=
      [.mustache ⟨.path (name "h"), [.path (name "v"), .literal (.string "x")], [], ⟨2, 9⟩⟩ true,
        .block ⟨.path (name "v"), [], [], ⟨14, 15⟩⟩ [] none]
    let context : Value Empty := .object [("v", .boolean false)]
    let renderer := environment.ownRenderer options 0
    let own := renderer.ops (options.root context none) (compileNodes options nodes) []
    ∃ first second, own.2 = [.called false first, .called true second] ∧
      first.params = [.string "v", .string "x"] ∧ first.contexts = [context, context] ∧
      second.params = [.boolean false] ∧ second.contexts = [] ∧
      ∀ isBuiltin invocation, .called isBuiltin invocation ∈ own.2 →
        ∃ path call scope helper, renderer.interpreter.Calls nodes path call scope helper invocation ∧
          (invocation.contexts.length = invocation.params.length ↔
            ¬renderer.interpreter.IsSection invocation.isBlock path call scope) := by
  intro environment options name nodes context renderer own
  refine ⟨_, _, rfl, rfl, rfl, rfl, rfl, ?_⟩
  intro isBuiltin invocation hmem
  obtain ⟨path, call, scope, helper, hcalls, hiff, -⟩ :=
    (length_contexts_iff environment options 0 nodes context none).2 isBuiltin invocation hmem
  exact ⟨path, call, scope, helper, hcalls, hiff rfl⟩

/-- The hook for sections, in a template that passes parameters as their text, has a parameter
without a context. -/
theorem contexts_missing_in_section :
    let count : Helper Empty := .custom fun invocation =>
      pure (.string (if invocation.contexts.length = invocation.params.length then "equal" else "fewer"))
    let environment : Environment Empty := { helpers := [("blockHelperMissing", count)] }
    let context : Value Empty := .object [("v", .boolean true)]
    ∃ template invocation,
      Template.compile "\x7b\x7b#v\x7d\x7d\x7b\x7b/v\x7d\x7d" { stringParams := true } = .ok template ∧
        template.run .recording environment 1 context none [] = (.done "fewer", [.called false invocation]) ∧
        invocation.params = [.boolean true] ∧ invocation.contexts = [] := by
  intro count environment context
  have hparse : parse "\x7b\x7b#v\x7d\x7d\x7b\x7b/v\x7d\x7d" = .ok
      [.block ⟨.path ⟨"v", 0, false, ["v"]⟩, [], [], ⟨3, 4⟩⟩ [] none] := rfl
  let invocation : Invocation Empty :=
    { name := "v", params := [.boolean true], hash := [], contexts := [], current := context, data := none,
      isBlock := true, hasInverse := false }
  exact ⟨_, invocation, Template.compile_of_parse hparse { stringParams := true }, rfl, rfl, rfl⟩

end Stencil
