import Stencil.Proofs.Render.Agreement

/-!
# Relations between runs

Two runs are often compared that differ only in what their hosts do and in how partials are
rendered. A renderer puts its runs together in few ways: from results and failures, one run after
another, and by catching a failure. A relation that all of these respect holds between whole
renderings as soon as it holds between the hosts and between the renderings of partials.
-/

namespace Stencil

/-- A relation between the runs within two hosts that is kept when runs are put together. -/
structure Run.Congruence (σ τ : Type) where
  Related : {α : Type} → Run σ α → Run τ α → Prop
  pure_related {α : Type} (result : α) : Related (pure result) (pure result)
  fail_related {α : Type} (error : RenderError) :
    Related (Run.fail error : Run σ α) (Run.fail error : Run τ α)
  bind_related {α β : Type} {run : Run σ α} {run' : Run τ α} {next : α → Run σ β}
    {next' : α → Run τ β} (hrun : Related run run')
    (hnext : ∀ result, Related (next result) (next' result)) :
    Related (run >>= next) (run' >>= next')
  attempt_related {α : Type} {run : Run σ α} {run' : Run τ α} (hrun : Related run run') :
    Related run.attempt run'.attempt

namespace Run.Congruence

variable {σ τ α β : Type} (relation : Run.Congruence σ τ)

theorem map_related {run : Run σ α} {run' : Run τ α} (hrun : relation.Related run run')
    (change : α → β) :
    relation.Related (do return change (← run)) (do return change (← run')) :=
  relation.bind_related hrun fun result => relation.pure_related (change result)

theorem ofExcept_related (result : Except RenderError α) :
    relation.Related (Run.ofExcept result : Run σ α) (Run.ofExcept result) := by
  cases result with
  | ok value => exact relation.pure_related value
  | error error => exact relation.fail_related error

end Run.Congruence

def Run.equality (σ : Type) : Run.Congruence σ σ where
  Related := Eq
  pure_related _ := rfl
  fail_related _ := rfl
  bind_related := by
    rintro α β run _ next next' rfl hnext
    rw [funext hnext]
  attempt_related := by
    rintro α run _ rfl
    rfl

/-- Runs with the same outcome that keep a relation between their states. -/
def Run.simulation {σ τ : Type} (Alike : σ → τ → Prop) : Run.Congruence σ τ where
  Related run run' := ∀ state state', Alike state state' →
    (run state).1 = (run' state').1 ∧ Alike (run state).2 (run' state').2
  pure_related _ := fun _ _ halike => ⟨rfl, halike⟩
  fail_related _ := fun _ _ halike => ⟨rfl, halike⟩
  bind_related := by
    intro α β run run' next next' hrun hnext state state' halike
    obtain ⟨houtcome, hbetween⟩ := hrun state state' halike
    rw [Run.bind_apply, Run.bind_apply]
    rcases heq : run state with ⟨outcome, between⟩
    rcases heq' : run' state' with ⟨outcome', between'⟩
    rw [heq, heq'] at houtcome hbetween
    obtain rfl : outcome = outcome' := houtcome
    cases outcome with
    | done result => exact hnext result between between' hbetween
    | failed error => exact ⟨rfl, hbetween⟩
    | exhausted => exact ⟨rfl, hbetween⟩
  attempt_related := by
    intro α run run' hrun state state' halike
    obtain ⟨houtcome, hafter⟩ := hrun state state' halike
    rw [Run.attempt, Run.attempt]
    rcases heq : run state with ⟨outcome, after⟩
    rcases heq' : run' state' with ⟨outcome', after'⟩
    rw [heq, heq'] at houtcome hafter
    obtain rfl : outcome = outcome' := houtcome
    cases outcome <;> exact ⟨rfl, hafter⟩

/-! ### Helpers at work -/

/-- An action asks only for bodies in some of the possible ways. -/
inductive Action.AsksOnly {φ α : Type} (allowed : BodyRequest φ → Prop) : Action φ α → Prop where
  | done (result : α) : AsksOnly allowed (.done result)
  | fail (error : RenderError) : AsksOnly allowed (.fail error)
  | body {request : BodyRequest φ} {next : Except RenderError String → Action φ α} : allowed request →
    (∀ answer, AsksOnly allowed (next answer)) → AsksOnly allowed (.body request next)

namespace Action.AsksOnly

variable {φ α β : Type} {allowed : BodyRequest φ → Prop}

theorem of_forall (h : ∀ request, allowed request) (action : Action φ α) : action.AsksOnly allowed := by
  induction action with
  | done result => exact .done result
  | fail error => exact .fail error
  | body request next ih => exact .body (h request) ih

theorem mono {other : BodyRequest φ → Prop} (hmono : ∀ request, allowed request → other request)
    {action : Action φ α} (h : action.AsksOnly allowed) : action.AsksOnly other := by
  induction h with
  | done result => exact .done result
  | fail error => exact .fail error
  | body hrequest _ ih => exact .body (hmono _ hrequest) ih

theorem bind {action : Action φ α} {next : α → Action φ β} (h : action.AsksOnly allowed)
    (hnext : ∀ result, (next result).AsksOnly allowed) : (action >>= next).AsksOnly allowed := by
  induction h with
  | done result => exact hnext result
  | fail error => exact .fail error
  | body hrequest _ ih => exact .body hrequest ih

theorem map {action : Action φ α} (h : action.AsksOnly allowed) (change : α → β) :
    (change <$> action).AsksOnly allowed :=
  h.bind fun result => .done (change result)

theorem render {request : BodyRequest φ} (h : allowed request) : (Action.render request).AsksOnly allowed := by
  refine .body h fun answer => ?_
  cases answer with
  | ok text => exact .done text
  | error error => exact .fail error

end Action.AsksOnly

/-- The same bodies are there, and they are related in the scopes in which a helper has them
rendered. -/
def Bodies.Related {φ σ τ : Type} (relation : Run.Congruence σ τ) (enter enter' : BodyRequest φ → Scope φ)
    (bodies : Bodies φ σ) (bodies' : Bodies φ τ) : Prop :=
  ∀ request : BodyRequest φ,
    Option.Rel (fun body body' => relation.Related (body (enter request)) (body' (enter' request)))
      (bodies.find? request.inverse) (bodies'.find? request.inverse)

namespace Bodies.Related

variable {φ σ τ : Type} {relation : Run.Congruence σ τ} {enter enter' : BodyRequest φ → Scope φ}

theorem none : Bodies.Related relation enter enter' {} {} := by
  intro request
  rw [Bodies.find?, Bodies.find?]
  split <;> exact .none

theorem some {program : Body φ σ} {program' : Body φ τ} {inverse : Option (Body φ σ)}
    {inverse' : Option (Body φ τ)}
    (hprogram : ∀ request, relation.Related (program (enter request)) (program' (enter' request)))
    (hinverse : ∀ request, Option.Rel
      (fun body body' => relation.Related (body (enter request)) (body' (enter' request)))
      inverse inverse') :
    Bodies.Related relation enter enter' ⟨program, inverse⟩ ⟨program', inverse'⟩ := by
  intro request
  rw [Bodies.find?, Bodies.find?]
  split
  · exact hinverse request
  · exact .some (hprogram request)

theorem isSome_eq {bodies : Bodies φ σ} {bodies' : Bodies φ τ}
    (h : Bodies.Related relation enter enter' bodies bodies') :
    bodies.program.isSome = bodies'.program.isSome ∧ bodies.inverse.isSome = bodies'.inverse.isSome := by
  have hisSome : ∀ {α β : Type} {r : α → β → Prop} {x : Option α} {y : Option β},
      Option.Rel r x y → x.isSome = y.isSome := by
    intro α β r x y hrel
    cases hrel <;> rfl
  exact ⟨hisSome (h ⟨false, Option.none, Option.none⟩), hisSome (h ⟨true, Option.none, Option.none⟩)⟩

end Bodies.Related

section

variable {φ σ τ : Type} {relation : Run.Congruence σ τ} {left : Interpreter φ σ} {right : Interpreter φ τ}

theorem Interpreter.answer_related
    (hobserve : ∀ event, relation.Related (left.observe event) (right.observe event))
    {scope scope' : Scope φ} {bodies : Bodies φ σ} {bodies' : Bodies φ τ} {request : BodyRequest φ}
    (hbody : Option.Rel (fun body body' =>
      relation.Related (body (left.entered scope request)) (body' (right.entered scope' request)))
      (bodies.find? request.inverse) (bodies'.find? request.inverse)) :
    relation.Related (left.answer scope bodies request) (right.answer scope' bodies' request) := by
  rw [answer, answer]
  generalize bodies.find? request.inverse = found at hbody ⊢
  generalize bodies'.find? request.inverse = found' at hbody ⊢
  cases hbody with
  | none => exact relation.pure_related _
  | some hrun =>
    refine relation.bind_related (hobserve _) fun _ => ?_
    refine relation.bind_related (relation.attempt_related hrun) fun text => ?_
    exact relation.bind_related (hobserve _) fun _ => relation.pure_related text

/-- A helper does related things if its bodies are related where it asks for them. -/
theorem Interpreter.perform_related_of_asksOnly
    (hobserve : ∀ event, relation.Related (left.observe event) (right.observe event))
    {scope scope' : Scope φ} {bodies : Bodies φ σ} {bodies' : Bodies φ τ} {allowed : BodyRequest φ → Prop}
    (hbodies : ∀ request, allowed request → Option.Rel (fun body body' =>
      relation.Related (body (left.entered scope request)) (body' (right.entered scope' request)))
      (bodies.find? request.inverse) (bodies'.find? request.inverse))
    {α : Type} {action : Action φ α} (haction : action.AsksOnly allowed) :
    relation.Related (left.perform scope bodies action) (right.perform scope' bodies' action) := by
  induction haction with
  | done result => exact relation.pure_related result
  | fail error => exact relation.fail_related error
  | body hrequest _ ih =>
    rw [perform, perform]
    exact relation.bind_related (answer_related hobserve (hbodies _ hrequest)) ih

theorem Interpreter.perform_related
    (hobserve : ∀ event, relation.Related (left.observe event) (right.observe event))
    {scope scope' : Scope φ} {bodies : Bodies φ σ} {bodies' : Bodies φ τ}
    (hbodies : Bodies.Related relation (left.entered scope) (right.entered scope') bodies bodies')
    {α : Type} (action : Action φ α) :
    relation.Related (left.perform scope bodies action) (right.perform scope' bodies' action) :=
  perform_related_of_asksOnly hobserve (fun request _ => hbodies request) (.of_forall (fun _ => trivial) action)

end

/-! ### Renderers -/

/-- Two renderers that call the same helpers and take related notes. What they do with partials is
left open. -/
structure Renderer.Linked {φ σ τ : Type} (relation : Run.Congruence σ τ) (left : Renderer φ σ)
    (right : Renderer φ τ) : Prop where
  helpers : left.environment.helpers = right.environment.helpers
  options : left.options = right.options
  note : ∀ event, relation.Related (Run.note left.host event) (Run.note right.host event)

namespace Renderer.Linked

variable {φ σ τ : Type} {relation : Run.Congruence σ τ} {left : Renderer φ σ} {right : Renderer φ τ}

section

variable (h : left.Linked relation right) (scope : Scope φ)

include h

theorem entered_eq : left.interpreter.entered scope = right.interpreter.entered scope := by
  have hdata : left.interpreter.options.data = right.interpreter.options.data := by
    change left.options.data = right.options.data
    rw [h.options]
  funext request
  rw [Interpreter.entered, Interpreter.entered, hdata]

theorem call {bodies : Bodies φ σ} {bodies' : Bodies φ τ}
    (hbodies : Bodies.Related relation (left.interpreter.entered scope) (left.interpreter.entered scope)
      bodies bodies') (helper : Helper φ) (invocation : Invocation φ) :
    relation.Related (left.call helper invocation scope bodies)
      (right.call helper invocation scope bodies') := by
  rw [Renderer.call, Renderer.call, ← interpreter_perform, ← interpreter_perform]
  refine relation.bind_related (h.note _) fun _ => Interpreter.perform_related h.note ?_ _
  rw [← h.entered_eq]
  exact hbodies

theorem invoke {bodies : Bodies φ σ} {bodies' : Bodies φ τ}
    (hbodies : Bodies.Related relation (left.interpreter.entered scope) (left.interpreter.entered scope)
      bodies bodies') (helper : Helper φ) (call : Invocable) :
    relation.Related (left.invoke helper call scope bodies) (right.invoke helper call scope bodies') := by
  rw [Renderer.invoke, Renderer.invoke, invocation, invocation, hbodies.isSome_eq.1, hbodies.isSome_eq.2,
    h.options]
  exact h.call scope hbodies helper _

theorem hook_eq (builtin : Builtin) :
    left.environment.hook builtin = right.environment.hook builtin := by
  rw [Environment.hook, Environment.hook, h.helpers]

theorem target_eq [Callable φ] (call : Invocable) : left.target call scope = right.target call scope := by
  rw [Renderer.target, Renderer.target, h.helpers]

theorem expression [Callable φ] (call : Invocable) :
    relation.Related (left.expression call scope) (right.expression call scope) := by
  have hinvoke := fun helper => h.invoke scope .none helper call
  rw [Renderer.expression, Renderer.expression, ← h.target_eq, ← h.hook_eq]
  cases left.target call scope with
  | helper helper => exact hinvoke helper
  | value found =>
    cases call.resolution with
    | helper => exact hinvoke _
    | property => exact relation.pure_related _
    | known | ambiguous =>
      cases found with
      | none => exact hinvoke _
      | some value => exact relation.pure_related _

theorem block [Callable φ] {bodies : Bodies φ σ} {bodies' : Bodies φ τ}
    (hbodies : Bodies.Related relation (left.interpreter.entered scope) (left.interpreter.entered scope)
      bodies bodies') (call : Invocable) :
    relation.Related (left.block call scope bodies) (right.block call scope bodies') := by
  rw [Renderer.block, Renderer.block, ← h.target_eq, ← h.hook_eq, ← h.hook_eq, ← h.options]
  cases left.target call scope with
  | helper helper => exact h.invoke scope hbodies helper call
  | value found =>
    by_cases hhelper : call.resolution = .helper
    · simp only [hhelper, if_true]
      exact h.invoke scope hbodies _ call
    · simp only [hhelper, if_false, invocation, hbodies.isSome_eq.1, hbodies.isSome_eq.2]
      exact h.call scope hbodies _ _

end

mutual

theorem op [Callable φ] (h : left.Linked relation right)
    (hinclusion : ∀ scope name context,
      relation.Related (left.inclusion name context scope) (right.inclusion name context scope))
    (scope : Scope φ) (op : Op) : relation.Related (left.op scope op) (right.op scope op) := by
  match op with
  | .content text =>
    rw [Renderer.op, Renderer.op]
    exact relation.pure_related text
  | .literal literal escape =>
    rw [Renderer.op, Renderer.op]
    exact relation.pure_related _
  | .expression call escape =>
    rw [Renderer.op, Renderer.op]
    exact relation.map_related (h.expression scope call) _
  | .block call program none =>
    rw [Renderer.op, Renderer.op]
    refine relation.map_related (h.block scope (.some ?_ fun _ => .none) call) _
    exact fun request => ops h hinclusion _ program
  | .block call program (some inverse) =>
    rw [Renderer.op, Renderer.op]
    refine relation.map_related (h.block scope (.some ?_ fun _ => .some ?_) call) _
    · exact fun request => ops h hinclusion _ program
    · exact ops h hinclusion _ inverse
  | .inclusion name context =>
    rw [Renderer.op, Renderer.op]
    exact hinclusion scope name context

theorem ops [Callable φ] (h : left.Linked relation right)
    (hinclusion : ∀ scope name context,
      relation.Related (left.inclusion name context scope) (right.inclusion name context scope))
    (scope : Scope φ) (ops' : List Op) :
    relation.Related (left.ops scope ops') (right.ops scope ops') := by
  match ops' with
  | [] =>
    rw [Renderer.ops, Renderer.ops]
    exact relation.pure_related ""
  | next :: rest =>
    rw [Renderer.ops, Renderer.ops]
    refine relation.bind_related (op h hinclusion scope next) fun text => ?_
    exact relation.map_related (ops h hinclusion scope rest) (text ++ ·)

end

end Renderer.Linked

/-- Two renderers for the same template, with related hosts and related renderings of partials. -/
structure Renderer.Related {φ σ τ : Type} (relation : Run.Congruence σ τ) (left : Renderer φ σ)
    (right : Renderer φ τ) : Prop where
  environment : left.environment = right.environment
  options : left.options = right.options
  note : ∀ event, relation.Related (Run.note left.host event) (Run.note right.host event)
  compile : ∀ source trackData,
    relation.Related (Run.compile left.host source trackData) (Run.compile right.host source trackData)
  nested : ∀ template context data,
    relation.Related (left.nested template context data) (right.nested template context data)

namespace Renderer.Related

variable {φ σ τ : Type} {relation : Run.Congruence σ τ} {left : Renderer φ σ} {right : Renderer φ τ}
  (h : left.Related relation right)

include h

theorem linked : left.Linked relation right :=
  ⟨congrArg Environment.helpers h.environment, h.options, h.note⟩

theorem inclusion (scope : Scope φ) (name : String) (context : Option Param) :
    relation.Related (left.inclusion name context scope) (right.inclusion name context scope) := by
  rw [Renderer.inclusion.eq_def, Renderer.inclusion.eq_def, ← h.environment, ← h.options]
  rcases left.environment.partials.find? name with _ | (source | template | render)
  · exact relation.fail_related _
  · exact relation.bind_related (h.compile _ _) fun template => h.nested template _ _
  · exact h.nested template _ _
  · exact relation.bind_related (h.note _) fun _ => relation.ofExcept_related _

end Renderer.Related

/-! ### Templates -/

/-- Templates render to related runs within hosts that are related, whatever the nesting, if they do
where the nesting starts. -/
theorem Template.run_related {φ σ τ : Type} [Callable φ] {relation : Run.Congruence σ τ}
    {host : Host φ σ} {host' : Host φ τ} {environment : Environment φ} {start start' : Nat}
    (hnote : ∀ event, relation.Related (Run.note host event) (Run.note host' event))
    (hcompile : ∀ source trackData,
      relation.Related (Run.compile host source trackData) (Run.compile host' source trackData))
    (hstart : ∀ template context data,
      relation.Related (Template.run host environment start template context data)
        (Template.run host' environment start' template context data)) (more : Nat)
    (template : Template) (context : Value φ) (data : Option (Table (Value φ))) :
    relation.Related (Template.run host environment (start + more) template context data)
      (Template.run host' environment (start' + more) template context data) := by
  induction more generalizing template context data with
  | zero => exact hstart template context data
  | succ more ih =>
    have hrelated : Renderer.Related relation
        ⟨host, environment, template.options, Template.run host environment (start + more)⟩
        ⟨host', environment, template.options, Template.run host' environment (start' + more)⟩ :=
      { environment := rfl
        options := rfl
        note := hnote
        compile := hcompile
        nested := ih }
    exact hrelated.linked.ops hrelated.inclusion _ template.ops

end Stencil
