import Stencil.Proofs.Render.Gap

/-!
# Filling a gap in another way

What fills a gap may be replaced by something that renders alike in every scope in which rendering
comes to the gap. It is enough to compare the two there, and only in scopes of interest if rendering
comes to no others.
-/

namespace Stencil

variable {φ σ τ : Type} [Callable φ]

/-! ### Templates within a silent host -/

/-- The interpreter of a template with the given options, which has at most so many partials inside
one another. -/
def Environment.interpreter (environment : Environment φ) (options : CompileOptions) (limit : Nat) :
    Interpreter φ σ :=
  Renderer.interpreter ⟨.silent, environment, options, Template.run .silent environment limit⟩

omit [Callable φ] in
theorem CompileOptions.root_tracked (options : CompileOptions) (context : Value φ)
    (data : Option (Table (Value φ))) : (options.root context data).Tracked options := by
  intro hdata
  rw [root, hdata]
  rfl

theorem Template.run_succ_eq_nodes (environment : Environment φ) (options : CompileOptions) (limit : Nat)
    (nodes : List Node) (context : Value φ) (data : Option (Table (Value φ))) :
    (Template.run .silent environment (limit + 1) ⟨compileNodes options nodes, options⟩ context data :
        Run σ String) =
      (environment.interpreter options limit).nodes (options.root context data) nodes :=
  Template.run_compileNodes .silent environment options limit nodes context data

/-- Options that read the tags of a template in the same way. -/
structure CompileOptions.Alike (options options' : CompileOptions) : Prop where
  data : options.data = options'.data
  stringParams : options.stringParams = options'.stringParams
  knownHelpersOnly : options.knownHelpersOnly = options'.knownHelpersOnly
  isKnown : options.knownHelpersOnly = true → ∀ name, options.isKnown name = options'.isKnown name

theorem CompileOptions.Alike.refl (options : CompileOptions) : options.Alike options :=
  ⟨rfl, rfl, rfl, fun _ _ => rfl⟩

theorem CompileOptions.Alike.symm {options options' : CompileOptions} (h : options.Alike options') :
    options'.Alike options :=
  ⟨h.data.symm, h.stringParams.symm, h.knownHelpersOnly.symm,
    fun honly name => (h.isKnown (h.knownHelpersOnly.trans honly) name).symm⟩

omit [Callable φ] in
/-- What a partial renders depends on the options of its tag only by whether data is tracked. -/
theorem Renderer.inclusion_of_data {options options' : CompileOptions} (hdata : options.data = options'.data)
    (host : Host φ σ) (environment : Environment φ)
    (nested : Template → Value φ → Option (Table (Value φ)) → Run σ String) :
    Renderer.inclusion ⟨host, environment, options, nested⟩ =
      Renderer.inclusion ⟨host, environment, options', nested⟩ := by
  funext name context scope
  rw [Renderer.inclusion.eq_def, Renderer.inclusion.eq_def]
  simp only [hdata]

omit [Callable φ] in
theorem Renderer.Related.interpreter {relation : Run.Congruence σ τ} {host : Host φ σ} {host' : Host φ τ}
    {environment : Environment φ} {options options' : CompileOptions}
    {nested : Template → Value φ → Option (Table (Value φ)) → Run σ String}
    {nested' : Template → Value φ → Option (Table (Value φ)) → Run τ String}
    (h : Renderer.Related relation ⟨host, environment, options', nested⟩ ⟨host', environment, options', nested'⟩)
    (halike : options.Alike options') :
    (Renderer.interpreter ⟨host, environment, options, nested⟩).Related relation
      (Renderer.interpreter ⟨host', environment, options', nested'⟩) where
  helpers := rfl
  data := halike.data
  stringParams := halike.stringParams
  knownHelpersOnly := halike.knownHelpersOnly
  consults := by
    intro path
    have hknown := halike.isKnown
    change (path.isSimple && (!options.knownHelpersOnly || options.isKnown (path.segments.headD ""))) =
      (path.isSimple && (!options'.knownHelpersOnly || options'.isKnown (path.segments.headD "")))
    rw [← halike.knownHelpersOnly]
    cases honly : options.knownHelpersOnly with
    | false => rfl
    | true => rw [hknown honly]
  observe := h.note
  partials := by
    intro name context data
    have hinclusion := h.inclusion ⟨context, [], data⟩ name none
    rwa [← Renderer.inclusion_of_data halike.data] at hinclusion

theorem Environment.interpreter_related {relation : Run.Congruence σ τ} {environment : Environment φ}
    {options options' : CompileOptions} (halike : options.Alike options') {limit limit' : Nat}
    (hrun : ∀ template context data,
      relation.Related (Template.run .silent environment limit template context data)
        (Template.run .silent environment limit' template context data)) :
    (environment.interpreter options limit).Related relation
      (environment.interpreter options' limit') := by
  have hrelated : Renderer.Related relation
      ⟨.silent, environment, options', Template.run .silent environment limit⟩
      ⟨.silent, environment, options', Template.run .silent environment limit'⟩ :=
    { environment := rfl
      options := rfl
      note := fun _ => relation.pure_related ()
      compile := Run.compile_silent_related relation
      nested := hrun }
  exact hrelated.interpreter halike

/-- The interpreter of a template is related to itself as soon as it may run into the limit. -/
theorem Environment.interpreter_related_self {relation : Run.Congruence σ τ}
    (hexhausted : relation.Related (Run.exhausted : Run σ String) Run.exhausted)
    (environment : Environment φ) (options : CompileOptions) (limit : Nat) :
    (environment.interpreter options limit).Related relation (environment.interpreter options limit) := by
  have hstart : ∀ template context data,
      relation.Related (Template.run .silent environment 0 template context data)
        (Template.run .silent environment 0 template context data) :=
    fun _ _ _ => hexhausted
  refine Environment.interpreter_related (.refl options) ?_
  rw [← Nat.zero_add limit]
  exact Template.run_related (fun _ => relation.pure_related ()) (Run.compile_silent_related relation)
    hstart limit

/-! ### Coming to a gap -/

def Run.sameOutcome (σ τ : Type) : Run.Congruence σ τ where
  Related run run' := ∀ state state', (run state).1 = (run' state').1
  pure_related _ := fun _ _ => rfl
  fail_related _ := fun _ _ => rfl
  bind_related := by
    intro α β run run' next next' hrun hnext state state'
    have hfirst := hrun state state'
    rw [Run.bind_apply, Run.bind_apply]
    rcases heq : run state with ⟨outcome, between⟩
    rcases heq' : run' state' with ⟨outcome', between'⟩
    rw [heq, heq'] at hfirst
    obtain rfl : outcome = outcome' := hfirst
    cases outcome with
    | done result => exact hnext result between between'
    | failed error => rfl
    | exhausted => rfl
  attempt_related := by
    intro α run run' hrun state state'
    have hfirst := hrun state state'
    rw [Run.attempt, Run.attempt]
    rcases heq : run state with ⟨outcome, after⟩
    rcases heq' : run' state' with ⟨outcome', after'⟩
    rw [heq, heq'] at hfirst
    obtain rfl : outcome = outcome' := hfirst
    cases outcome <;> rfl

def Run.visit (scope : Scope φ) : Run (List (Scope φ)) Unit := fun visits => (.done (), visits ++ [scope])

namespace Gap

def template (gap : Gap) (options : CompileOptions) (filling : List Node) : Template :=
  ⟨compileNodes options (gap.fill filling), options⟩

/-- Renders the template with a filled gap, and keeps the scopes in which rendering comes to the
gap. -/
def watch (gap : Gap) (options : CompileOptions) (filling : List Node) (context : Value φ)
    (environment : Environment φ) : Nat → Run (List (Scope φ)) String
  | 0 => Run.exhausted
  | limit + 1 =>
    let interpreter := environment.interpreter options limit
    gap.render interpreter (fun scope => do Run.visit scope; interpreter.nodes scope filling)
      (options.root context environment.data)

/-- A template with a filled gap renders to an outcome, and comes to the gap only in scopes of some
kind. -/
def YieldsWhere (gap : Gap) (options : CompileOptions) (filling : List Node) (context : Value φ)
    (environment : Environment φ) (holds : Scope φ → Prop) (outcome : Outcome String) : Prop :=
  outcome ≠ .exhausted ∧ ∃ limit,
    ((gap.template options filling).run .plain environment limit context environment.data ()).1 = outcome ∧
    ∀ scope ∈ (gap.watch options filling context environment limit []).2, holds scope

variable {gap : Gap} {options : CompileOptions} {filling filling' : List Node} {context : Value φ}
  {environment : Environment φ} {holds : Scope φ → Prop} {outcome : Outcome String}

theorem yieldsWhere_true_iff :
    gap.YieldsWhere options filling context environment (fun _ => True) outcome ↔
      (gap.template options filling).Yields context environment outcome := by
  simp only [YieldsWhere, Template.Yields, implies_true, and_true]

theorem run_template (limit : Nat) :
    ((gap.template options filling).run .silent environment (limit + 1) context environment.data :
        Run σ String) =
      gap.render (environment.interpreter options limit)
        (fun scope => (environment.interpreter options limit).nodes scope filling)
        (options.root context environment.data) := by
  rw [template, Template.run_succ_eq_nodes, render_nodes]

theorem watch_outcome (limit : Nat) (visits : List (Scope φ)) :
    (gap.watch options filling context environment limit visits).1 =
      ((gap.template options filling).run .plain environment limit context environment.data ()).1 := by
  cases limit with
  | zero => rfl
  | succ limit =>
    have hinterpreter : (environment.interpreter options limit).Related (Run.sameOutcome (List (Scope φ)) Unit)
        (environment.interpreter options limit) :=
      Environment.interpreter_related_self (fun _ _ => rfl) environment options limit
    have hvisit : ∀ scope : Scope φ, scope.Tracked options →
        (Run.sameOutcome (List (Scope φ)) Unit).Related
          (do Run.visit scope; (environment.interpreter options limit).nodes scope filling)
          ((environment.interpreter options limit).nodes scope filling) := by
      intro scope _ visits state
      exact hinterpreter.nodes (.refl _ scope) filling (Nat.le_refl _) _ _
    have hrender := render_related hinterpreter hvisit gap
      (options.root_tracked context environment.data) visits ()
    rw [← run_template] at hrender
    exact hrender

/-- One of the scopes is not of the given kind. -/
def Strays (holds : Scope φ → Prop) (visits : List (Scope φ)) : Prop :=
  ∃ scope ∈ visits, ¬holds scope

omit [Callable φ] in
theorem visit_approximation {scope : Scope φ} {run run' : Run (List (Scope φ)) String}
    (hkeep : (Run.approximation (Strays holds)).Related run run)
    (hrun : holds scope → (Run.approximation (Strays holds)).Related run run') :
    (Run.approximation (Strays holds)).Related
      (do Run.visit scope; run) (do Run.visit scope; run') := by
  by_cases hscope : holds scope
  · refine Run.Congruence.bind_related _ ?_ fun _ => hrun hscope
    intro visits
    refine ⟨fun hspoiled => ?_, fun _ => .inr rfl⟩
    obtain ⟨visited, hvisited, hnot⟩ := hspoiled
    exact ⟨visited, List.mem_append_left _ hvisited, hnot⟩
  · intro visits
    have hspoiled := (hkeep (visits ++ [scope])).1
      ⟨scope, List.mem_append_right _ (List.mem_singleton_self scope), hscope⟩
    exact ⟨fun _ => hspoiled, fun hend => absurd hspoiled hend⟩

/-- What fills a gap can be replaced by what it approximates wherever rendering comes to the gap. -/
theorem YieldsWhere.refill (more : Nat)
    (hfilling : ∀ (limit : Nat) (scope : Scope φ), scope.Tracked options → holds scope →
      (Run.approximation (Strays holds)).Related
        ((environment.interpreter options limit).nodes scope filling)
        ((environment.interpreter options (limit + more)).nodes scope filling'))
    (h : gap.YieldsWhere options filling context environment holds outcome) :
    gap.YieldsWhere options filling' context environment holds outcome := by
  obtain ⟨hend, limit, hrun, hvisits⟩ := h
  rw [← watch_outcome limit []] at hrun
  cases limit with
  | zero => exact absurd hrun.symm hend
  | succ limit =>
    have hinterpreter (more : Nat) := Environment.interpreter_related (.refl options)
      (Template.run_approximation (Strays holds) environment limit more)
    have hwatch := render_related (hinterpreter more)
      (fun scope hscope => visit_approximation
        ((hinterpreter 0).nodes (.refl _ scope) filling (Nat.le_refl _)) (hfilling limit scope hscope))
      gap (options.root_tracked context environment.data) []
    have hsame : gap.watch options filling context environment (limit + 1) [] =
        gap.watch options filling' context environment (limit + more + 1) [] := by
      rcases hwatch.2 (fun ⟨scope, hscope, hnot⟩ => hnot (hvisits scope hscope)) with hexhausted | hsame
      · exact absurd (hrun.symm.trans hexhausted) hend
      · exact hsame
    rw [hsame] at hrun hvisits
    exact ⟨hend, limit + more + 1, (watch_outcome _ []).symm.trans hrun, hvisits⟩

end Gap

end Stencil
