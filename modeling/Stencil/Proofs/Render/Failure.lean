import Stencil.Demo.Page
import Stencil.Proofs.Render.Inclusion
import Stencil.Proofs.Render.Invariance
import Stencil.Proofs.Render.Termination
import Stencil.Proofs.Table

/-!
# Why rendering fails

Rendering itself has two reasons to fail: a partial is missing, or its text does not parse.
Properties, helpers, items of arrays and contexts may be missing, and a value may be of any kind,
without that being an error. A helper can fail for reasons of its own. If it only passes on the
errors of its bodies, then so does the tag that calls it, and every error of a rendering comes from
a tag for a partial.
-/

namespace Stencil

variable {φ σ : Type}

/-! ### Actions -/

/-- An action fails only with one of the given errors or with an error of a body that it has asked
for. -/
inductive Action.Relays {α : Type} : List RenderError → Action φ α → Prop where
  | done (errors : List RenderError) (result : α) : Relays errors (.done result)
  | fail {errors : List RenderError} {error : RenderError} : error ∈ errors → Relays errors (.fail error)
  | body {errors : List RenderError} {request : BodyRequest φ} {next : Except RenderError String → Action φ α} :
    (∀ text, Relays errors (next (.ok text))) → (∀ error, Relays (error :: errors) (next (.error error))) →
    Relays errors (.body request next)

namespace Action.Relays

variable {α β : Type} {errors : List RenderError}

theorem bind {action : Action φ α} {next : α → Action φ β} (h : action.Relays errors)
    (hnext : ∀ result errors, (next result).Relays errors) : (action >>= next).Relays errors := by
  induction h with
  | done errors result => exact hnext result errors
  | fail hmem => exact .fail hmem
  | body _ _ ihok iherror => exact .body ihok iherror

theorem map {action : Action φ α} (h : action.Relays errors) (change : α → β) :
    (change <$> action).Relays errors :=
  h.bind fun result errors => .done errors (change result)

theorem render (request : BodyRequest φ) : (Action.render request).Relays errors :=
  .body (fun text => .done errors text) fun _ => .fail List.mem_cons_self

theorem renderBlock (context : Option (Value φ)) : (Action.renderBlock context).Relays errors :=
  .render _

theorem renderInverse : (Action.renderInverse : Action φ String).Relays errors :=
  .render _

end Action.Relays

namespace Builtin

variable {errors : List RenderError}

theorem renderEach_relays (items : List (Value φ)) : (renderEach items).Relays errors := by
  induction items generalizing errors with
  | nil => exact .done errors ""
  | cons item items ih => exact (Action.Relays.renderBlock _).bind fun text _ => ih.map (text ++ ·)

theorem renderItems_relays (items : List (Value φ)) : (renderItems items).Relays errors := by
  cases items with
  | nil => exact .renderInverse
  | cons item items => exact renderEach_relays _

theorem renderBlock_or_renderInverse_relays (condition : Bool) (context : Option (Value φ)) :
    (if condition then Action.renderBlock context else Action.renderInverse).Relays errors := by
  split
  · exact .renderBlock context
  · exact .renderInverse

theorem renderSection_relays (value : Value φ) : (renderSection value).Relays errors := by
  rw [renderSection.eq_def]
  split
  · exact renderItems_relays _
  · exact renderBlock_or_renderInverse_relays _ _

theorem run_relays (builtin : Builtin) (invocation : Invocation φ) :
    (builtin.run invocation).Relays errors := by
  cases builtin with
  | ifHelper => exact (renderBlock_or_renderInverse_relays _ _).map _
  | unlessHelper =>
    refine Action.Relays.map ?_ _
    split
    · exact .renderInverse
    · exact .renderBlock _
  | eachHelper =>
    refine Action.Relays.map ?_ _
    split
    · exact renderItems_relays _
    · exact renderItems_relays _
    · exact .renderInverse
  | withHelper =>
    refine Action.Relays.map ?_ _
    split
    · exact .renderInverse
    · exact .renderBlock _
  | helperMissing => exact .done errors Value.null
  | blockHelperMissing => exact (renderSection_relays _).map _

end Builtin

/-! ### Runs -/

/-- Every error of the run is allowed, whatever the state is. -/
def Run.FailsOnly {α : Type} (allowed : RenderError → Prop) (run : Run σ α) : Prop :=
  ∀ state error after, run state = (.failed error, after) → allowed error

namespace Run.FailsOnly

variable {α β : Type} {allowed : RenderError → Prop}

theorem pure (result : α) : Run.FailsOnly allowed (Pure.pure result : Run σ α) := by
  intro state error after hrun
  obtain ⟨⟨⟩, -⟩ := Prod.mk.inj hrun

theorem fail {error : RenderError} (h : allowed error) : Run.FailsOnly allowed (Run.fail error : Run σ α) := by
  intro state other after hrun
  obtain ⟨⟨⟩, -⟩ := Prod.mk.inj hrun
  exact h

theorem exhausted : Run.FailsOnly allowed (Run.exhausted : Run σ α) := by
  intro state error after hrun
  obtain ⟨⟨⟩, -⟩ := Prod.mk.inj hrun

theorem bind {run : Run σ α} {next : α → Run σ β} (hrun : run.FailsOnly allowed)
    (hnext : ∀ result, (next result).FailsOnly allowed) : (run >>= next).FailsOnly allowed := by
  intro state error after heq
  rw [Run.bind_apply] at heq
  rcases hfirst : run state with ⟨result | failure | _, between⟩
  · rw [hfirst] at heq
    exact hnext result between error after heq
  · rw [hfirst] at heq
    obtain ⟨⟨⟩, -⟩ := Prod.mk.inj heq
    exact hrun state error between hfirst
  · rw [hfirst] at heq
    obtain ⟨⟨⟩, -⟩ := Prod.mk.inj heq

theorem attempt_bind {run : Run σ α} {next : Except RenderError α → Run σ β} (hrun : run.FailsOnly allowed)
    (hok : ∀ result, (next (.ok result)).FailsOnly allowed)
    (herror : ∀ error, allowed error → (next (.error error)).FailsOnly allowed) :
    (run.attempt >>= next).FailsOnly allowed := by
  intro state error after heq
  rw [Run.bind_apply, Run.attempt] at heq
  rcases hfirst : run state with ⟨result | failure | _, between⟩
  · rw [hfirst] at heq
    exact hok result between error after heq
  · rw [hfirst] at heq
    exact herror failure (hrun state failure between hfirst) between error after heq
  · rw [hfirst] at heq
    obtain ⟨⟨⟩, -⟩ := Prod.mk.inj heq

theorem weaken {other : RenderError → Prop} {run : Run σ α} (hrun : run.FailsOnly allowed)
    (hother : ∀ error, allowed error → other error) : run.FailsOnly other :=
  fun state error after heq => hother error (hrun state error after heq)

end Run.FailsOnly

/-- A run fails only with errors that are allowed, whatever its scope is. -/
def Run.failing (allowed : RenderError → Prop) : Run.Invariant φ σ where
  Holds _ run := run.FailsOnly allowed
  pure_holds _ := .pure
  bind_holds := .bind

/-! ### Tags -/

namespace Interpreter

variable (interpreter : Interpreter φ σ) {allowed : RenderError → Prop}

theorem observe_failsOnly (event : Event φ) : (interpreter.observe event).FailsOnly allowed := by
  intro state error after hrun
  obtain ⟨⟨⟩, -⟩ := Prod.mk.inj hrun

theorem perform_failsOnly {scope : Scope φ} {bodies : Bodies φ σ}
    (hbodies : ∀ inverse body, bodies.find? inverse = some body → ∀ inner, (body inner).FailsOnly allowed)
    {α : Type} {errors : List RenderError} {action : Action φ α} (h : action.Relays errors)
    (herrors : ∀ error ∈ errors, allowed error) :
    (interpreter.perform scope bodies action).FailsOnly allowed := by
  induction h with
  | done errors result => exact .pure result
  | fail hmem => exact .fail (herrors _ hmem)
  | @body errors request next _ _ ihok iherror =>
    have hok := fun text => ihok text herrors
    have herror : ∀ error, allowed error →
        (interpreter.perform scope bodies (next (.error error))).FailsOnly allowed := by
      intro error hallowed
      exact iherror error (List.forall_mem_cons.2 ⟨hallowed, herrors⟩)
    rw [perform, answer]
    cases hbody : bodies.find? request.inverse with
    | none => exact hok ""
    | some body =>
      simp only [bind_assoc, pure_bind]
      refine (interpreter.observe_failsOnly _).bind fun _ => (hbodies _ body hbody _).attempt_bind ?_ ?_
      · exact fun text => (interpreter.observe_failsOnly _).bind fun _ => hok text
      · exact fun error hallowed => (interpreter.observe_failsOnly _).bind fun _ => herror error hallowed

variable [Callable φ]

/-- What is called at a tag is a helper that is registered, a helper of the library or a
function. -/
theorem helper_of_meaning {isBlock : Bool} {path : Path} {call : Call} {scope : Scope φ} {helper : Helper φ}
    {params contexts : List (Value φ)}
    (h : interpreter.meaning isBlock path call scope = .call helper params contexts) :
    (∃ name, interpreter.helpers.find? name = some helper) ∨ (∃ builtin, helper = .builtin builtin) ∨
      ∃ handle, helper = .ofFunction handle := by
  have hhook : ∀ builtin, (∃ name, interpreter.helpers.find? name = some (interpreter.hook builtin)) ∨
      (∃ known, interpreter.hook builtin = .builtin known) ∨
      ∃ handle, interpreter.hook builtin = .ofFunction handle := by
    intro builtin
    rw [hook]
    cases hfound : interpreter.helpers.find? builtin.name with
    | none => exact .inr (.inl ⟨builtin, rfl⟩)
    | some helper => exact .inl ⟨_, hfound⟩
  simp only [meaning] at h
  split at h
  · next found hfound =>
    obtain ⟨rfl, -, -⟩ := Meaning.call.inj h
    split at hfound
    · exact .inl ⟨_, hfound⟩
    · cases hfound
  · obtain ⟨rfl, -, -⟩ := Meaning.call.inj h
    exact .inr (.inr ⟨_, rfl⟩)
  · split at h
    · obtain ⟨rfl, -, -⟩ := Meaning.call.inj h
      exact hhook _
    · split at h
      · obtain ⟨rfl, -, -⟩ := Meaning.call.inj h
        split
        · exact .inr (.inl ⟨_, rfl⟩)
        · exact hhook _
      · split at h
        · obtain ⟨rfl, -, -⟩ := Meaning.call.inj h
          exact hhook _
        · cases h

/-- A tag fails as its bodies do if whatever it may call relays errors. -/
theorem tag_failsOnly
    (hhelpers : ∀ name helper, interpreter.helpers.find? name = some helper →
      ∀ invocation, (helper.run invocation).Relays [])
    (hfunctions : ∀ (handle : φ) invocation, (Callable.call handle invocation).Relays [])
    (isBlock : Bool) (path : Path) (call : Call) (scope : Scope φ) {bodies : Bodies φ σ}
    (hbodies : ∀ inverse body, bodies.find? inverse = some body → ∀ inner, (body inner).FailsOnly allowed) :
    (interpreter.tag isBlock path call scope bodies).FailsOnly allowed := by
  rw [tag]
  cases hmeaning : interpreter.meaning isBlock path call scope with
  | value value => exact .pure value
  | call helper params contexts =>
    have hrelays : ∀ invocation, (helper.run invocation).Relays [] := by
      rcases interpreter.helper_of_meaning hmeaning with ⟨name, hfound⟩ | ⟨builtin, rfl⟩ | ⟨handle, rfl⟩
      · exact hhelpers name helper hfound
      · exact builtin.run_relays
      · exact hfunctions handle
    refine (interpreter.observe_failsOnly _).bind fun _ => ?_
    exact interpreter.perform_failsOnly hbodies (hrelays _) (List.forall_mem_nil _)

theorem nodes_failsOnly
    (hhelpers : ∀ name helper, interpreter.helpers.find? name = some helper →
      ∀ invocation, (helper.run invocation).Relays [])
    (hfunctions : ∀ (handle : φ) invocation, (Callable.call handle invocation).Relays []) {nodes : List Node}
    (hpartials : ∀ name context, Node.Among (.inclusion name context) nodes → ∀ value data,
      (interpreter.partials name value data).FailsOnly allowed) (scope : Scope φ) :
    (interpreter.nodes scope nodes).FailsOnly allowed := by
  have hkeeps : interpreter.Keeps (Run.failing allowed) nodes :=
    { tag := by
        intro path call _ _ isBlock scope bodies hbodies
        exact interpreter.tag_failsOnly hhelpers hfunctions isBlock path call scope hbodies
      inclusion := fun hmem scope value => hpartials _ _ hmem value scope.data }
  exact hkeeps.nodes scope

end Interpreter

/-! ### Templates -/

namespace ParsedEnvironment

/-- The reasons for which nodes may fail: a partial that they lead to is missing, or its text does
not parse. -/
inductive Faults (environment : ParsedEnvironment φ) (nodes : List Node) : RenderError → Prop where
  | missing {name : String} : environment.Reaches nodes name → environment.partials.find? name = none →
    Faults environment nodes (.partialNotFound name)
  | unparsable {name : String} {registered : SourcePartial} {error : ParseError} :
    environment.Reaches nodes name → environment.partials.find? name = some (.source registered) →
    parse registered.text = .error error → Faults environment nodes (.unparsable error)

/-- Helpers and functions fail only if a body of theirs does, and functions for partials do not
fail. -/
structure Relays [Callable φ] (environment : ParsedEnvironment φ) : Prop where
  helpers : ∀ name run, (name, .custom run) ∈ environment.helpers →
    ∀ invocation, (run invocation).Relays []
  functions : ∀ (handle : φ) invocation, (Callable.call handle invocation).Relays []
  partials : ∀ name call, (name, .function call) ∈ environment.partials →
    ∀ context, ∃ text, call context = .ok text

theorem Faults.through {environment : ParsedEnvironment φ} {nodes : List Node} {name : String}
    {context : Option Expr} {template : ParsedTemplate} {error : RenderError}
    (h : environment.Faults template.nodes error) (hname : Node.Among (.inclusion name context) nodes)
    (hprovides : environment.Provides name template) : environment.Faults nodes error := by
  cases h with
  | missing hreaches hfound => exact .missing (.through hname hprovides hreaches) hfound
  | unparsable hreaches hfound hparse => exact .unparsable (.through hname hprovides hreaches) hfound hparse

end ParsedEnvironment

variable [Callable φ] {environment : ParsedEnvironment φ} {template : ParsedTemplate}

theorem ParsedTemplate.interpret_failsOnly (note : Event φ → σ → σ) (hrelays : environment.Relays) (limit : Nat)
    (context : Value φ) (data : Option (Table (Value φ))) :
    (template.interpret note environment limit context data).FailsOnly (environment.Faults template.nodes) := by
  induction limit generalizing template context data with
  | zero => exact .exhausted
  | succ limit ih =>
    rw [interpret_succ]
    refine Interpreter.nodes_failsOnly _ ?_ hrelays.functions ?_ _
    · intro name helper hfound invocation
      cases helper with
      | builtin builtin => exact builtin.run_relays invocation
      | custom run => exact hrelays.helpers name run (Table.mem_of_find? hfound) invocation
    · intro name inner hinner context data
      show Run.FailsOnly _ (environment.renderPartial note _ _ name context data)
      rcases environment.renderPartial_cases note template.options.data name with
        ⟨hfound, hrender⟩ | ⟨_, _, hfound, hparse, hrender⟩ | ⟨call, hfound, hrender⟩ |
          ⟨included, hprovides, -, hrender⟩
      · rw [hrender]
        exact .fail (.missing (.of_among hinner) hfound)
      · rw [hrender]
        exact .fail (.unparsable (.of_among hinner) hfound hparse)
      · rw [hrender]
        obtain ⟨text, htext⟩ := hrelays.partials name call (Table.mem_of_find? hfound) context
        intro state error after (heq : Run.ofExcept (call context) _ = _)
        rw [htext] at heq
        obtain ⟨⟨⟩, -⟩ := Prod.mk.inj heq
      · rw [hrender]
        exact (ih context data).weaken fun error hfault => hfault.through hinner hprovides

/-- **Rendering fails only because of its partials.** Let helpers and functions fail only if a body
of theirs does. If all partials that a template leads to are there, and those that are texts parse,
then the template renders, whatever else is missing. And if it fails, then the error names a partial
that the template leads to and that is missing, or it is the error of the parser for the text of
one. -/
theorem render_failure (hrelays : environment.Relays) {context : Value φ} {outcome : Outcome String}
    (hyields : template.compile.Yields context environment.compile outcome) :
    ((∀ name, environment.Reaches template.nodes name → ∃ included,
        environment.partials.find? name = some included ∧
          ∀ registered, included = .source registered → ∃ nodes, parse registered.text = .ok nodes) →
      ∃ text, outcome = .done text) ∧
    ∀ error, outcome = .failed error → environment.Faults template.nodes error := by
  obtain ⟨hend, limit, hrun⟩ := hyields
  have hfails : (template.interpret (fun _ (state : Unit) => state) environment limit context
      environment.data).FailsOnly (environment.Faults template.nodes) :=
    ParsedTemplate.interpret_failsOnly _ hrelays limit context environment.data
  rw [← run_compile] at hfails
  have hfaults : ∀ error, outcome = .failed error → environment.Faults template.nodes error := by
    rintro error rfl
    exact hfails () error _ (Prod.ext hrun rfl)
  refine ⟨fun hcomplete => ?_, hfaults⟩
  cases outcome with
  | done text => exact ⟨text, rfl⟩
  | exhausted => exact absurd rfl hend
  | failed error =>
    cases hfaults error rfl with
    | missing hreaches hmissing =>
      obtain ⟨included, hfound, -⟩ := hcomplete _ hreaches
      rw [hmissing] at hfound
      cases hfound
    | unparsable hreaches hsource hparse =>
      obtain ⟨included, hfound, hparses⟩ := hcomplete _ hreaches
      obtain rfl := Option.some.inj (hsource.symm.trans hfound)
      obtain ⟨nodes, hnodes⟩ := hparses _ rfl
      rw [hparse] at hnodes
      cases hnodes

/-- A helper of its own around a partial that is there and around one that is not. -/
theorem render_failure_wrapped :
    let wrapped (name : String) : ParsedTemplate :=
      ⟨[.block ⟨.path ⟨"wrap", 0, false, ["wrap"]⟩, [], [], ⟨3, 7⟩⟩ [.inclusion name none] none], {}⟩
    let environment : ParsedEnvironment Empty :=
      { helpers := [("wrap", .custom fun _ => .string <$> Action.renderBlock)]
        partials := [("row", .source ⟨"\x7b\x7b../name\x7d\x7d", 0⟩)] }
    (∀ context outcome, (wrapped "row").compile.Yields context environment.compile outcome →
        ∃ text, outcome = .done text) ∧
      (wrapped "row").compile.Yields .null environment.compile (.done "") ∧
      (wrapped "gone").compile.Yields .null environment.compile (.failed (.partialNotFound "gone")) ∧
      environment.Faults (wrapped "gone").nodes (.partialNotFound "gone") := by
  intro wrapped environment
  have hrelays : environment.Relays :=
    { helpers := by
        intro name run hmem invocation
        obtain ⟨-, hrun⟩ := Prod.mk.inj (List.mem_singleton.1 hmem)
        obtain rfl := Helper.custom.inj hrun
        exact (Action.Relays.renderBlock none).map _
      functions := nofun
      partials := by
        intro name call hmem
        cases (Prod.mk.inj (List.mem_singleton.1 hmem)).2 }
  have hparse : parse "\x7b\x7b../name\x7d\x7d" = .ok
      [.mustache ⟨.path ⟨"../name", 1, false, ["name"]⟩, [], [], ⟨2, 9⟩⟩ true] := rfl
  have hrow : ∀ name, environment.Reaches (wrapped "row").nodes name → name = "row" := by
    rintro name ⟨first, context, hfirst, hname⟩
    simp only [wrapped, Node.among_cons_iff, Node.within_iff, reduceCtorEq, Node.inside, Option.getD_none,
      List.append_nil, Node.inclusion.injEq, Node.not_among_nil, or_false, false_or] at hfirst
    obtain ⟨rfl, -⟩ := hfirst
    rcases hname.cases_head with rfl | ⟨next, ⟨included, context, hprovides, hnext⟩, -⟩
    · rfl
    · obtain ⟨found, trackData, hfound, htemplate⟩ := hprovides
      obtain ⟨-, rfl⟩ := Prod.mk.inj (List.mem_singleton.1 (Table.mem_of_find? hfound))
      rw [ParsedPartial.template?, hparse] at htemplate
      obtain rfl := Option.some.inj htemplate
      simp only [Node.among_cons_iff, Node.within_iff, reduceCtorEq, Node.inside, Node.not_among_nil,
        or_self] at hnext
  have hgone : (wrapped "gone").compile.Yields .null environment.compile (.failed (.partialNotFound "gone")) :=
    ⟨by decide, 2, by decide +kernel⟩
  refine ⟨fun context outcome hyields => (render_failure hrelays hyields).1 ?_, ⟨by decide, 2, by decide +kernel⟩,
    hgone, (render_failure hrelays hgone).2 _ rfl⟩
  intro name hreaches
  obtain rfl := hrow name hreaches
  refine ⟨_, rfl, ?_⟩
  rintro registered hregistered
  obtain rfl := ParsedPartial.source.inj hregistered
  exact ⟨_, hparse⟩

end Stencil
