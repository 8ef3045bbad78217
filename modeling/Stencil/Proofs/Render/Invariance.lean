import Stencil.Proofs.Render.Comparison
import Stencil.Proofs.Render.Congruence

/-!
# Invariants of rendering

What is said of a run may depend on the scope that it takes place in. It holds of all nodes of a
template if it holds of the tags and of the partials, and is kept when one run follows another. And
it holds of a tag if it holds of the call, and of each body that a helper has rendered.
-/

namespace Stencil

variable {φ σ : Type}

/-- Something that is said of runs in a scope, and is kept when one run follows another. -/
structure Run.Invariant (φ σ : Type) where
  Holds {α : Type} : Scope φ → Run σ α → Prop
  pure_holds {α : Type} (scope : Scope φ) (result : α) : Holds scope (pure result)
  bind_holds {α β : Type} {scope : Scope φ} {run : Run σ α} {next : α → Run σ β} : Holds scope run →
    (∀ result, Holds scope (next result)) → Holds scope (run >>= next)

def Event.isCall : Event φ → Bool
  | .called _ _ => true
  | .entered _ | .left | .included _ => false

theorem Run.ofExcept_state {α : Type} (result : Except RenderError α) (state : σ) :
    (Run.ofExcept result state).2 = state := by
  cases result <;> rfl

theorem Bodies.forall_find? {Holds : Body φ σ → Prop} {program : Body φ σ} {inverse inverse' : Option (Body φ σ)}
    (hprogram : Holds program) (hinverse : Option.Rel (fun body _ => Holds body) inverse inverse')
    (isInverse : Bool) (body : Body φ σ) (hbody : Bodies.find? ⟨some program, inverse⟩ isInverse = some body) :
    Holds body := by
  cases isInverse with
  | false =>
    obtain rfl := Option.some.inj hbody
    exact hprogram
  | true =>
    cases hinverse with
    | none => cases hbody
    | some hinner =>
      obtain rfl := Option.some.inj hbody
      exact hinner

namespace Interpreter

variable [Callable φ]

/-! ### Nodes -/

/-- An invariant holds of the partials in some nodes, and of the tags whose bodies it holds of. -/
structure Keeps (interpreter : Interpreter φ σ) (invariant : Run.Invariant φ σ) (nodes : List Node) : Prop where
  tag {path : Path} {call : Call} : (∃ node : Node, node.Among nodes ∧ node.call? = some call) →
    call.head = .path path → ∀ isBlock scope (bodies : Bodies φ σ),
      (∀ inverse body, bodies.find? inverse = some body → ∀ scope, invariant.Holds scope (body scope)) →
      invariant.Holds scope (interpreter.tag isBlock path call scope bodies)
  inclusion {name : String} {context : Option Expr} : Node.Among (.inclusion name context) nodes →
    ∀ scope value, invariant.Holds scope (interpreter.partials name value scope.data)

variable {interpreter : Interpreter φ σ} {invariant : Run.Invariant φ σ} {whole : List Node}

theorem Keeps.nodes (h : interpreter.Keeps invariant whole) (scope : Scope φ) :
    invariant.Holds scope (interpreter.nodes scope whole) := by
  have hcomparison : interpreter.Comparison interpreter
      (fun body _ => ∀ scope, invariant.Holds scope (body scope)) whole :=
    { text := fun text scope => invariant.pure_holds scope text
      append := by
        intro first rest _ _ hfirst hrest scope
        refine invariant.bind_holds (hfirst scope) fun text => ?_
        exact invariant.bind_holds (hrest scope) fun _ => invariant.pure_holds scope _
      mustache := by
        intro call escaped hmem scope
        change invariant.Holds scope (interpreter.node scope (.mustache call escaped))
        rw [node]
        split
        · exact invariant.pure_holds scope _
        · next path hhead =>
          refine invariant.bind_holds (h.tag ⟨_, hmem, rfl⟩ hhead false scope _ ?_) fun _ =>
            invariant.pure_holds scope _
          intro inverse body hbody
          cases inverse <;> cases hbody
      block := by
        intro call program _ inverse _ hamong hprogram hinverse scope
        rw [block]
        split
        · exact invariant.pure_holds scope ""
        · next path hhead =>
          refine invariant.bind_holds (h.tag hamong hhead true scope _ ?_) fun _ => invariant.pure_holds scope _
          exact Bodies.forall_find? hprogram hinverse
      inclusion := by
        intro name context hmem scope
        change invariant.Holds scope (interpreter.node scope (.inclusion name context))
        rw [node]
        exact h.inclusion hmem scope _ }
  exact hcomparison.nodes scope

/-! ### Tags -/

/-- A tag among some nodes calls a helper where it stands in a scope, and this is what the helper is
told. -/
structure Calls (interpreter : Interpreter φ σ) (nodes : List Node) (path : Path) (call : Call) (scope : Scope φ)
    (helper : Helper φ) (invocation : Invocation φ) : Prop where
  among : ∃ node : Node, node.Among nodes ∧ node.call? = some call
  head : call.head = .path path
  meaning : interpreter.meaning invocation.isBlock path call scope =
    .call helper invocation.params invocation.contexts
  name : invocation.name = path.text
  hash : invocation.hash = call.hash.map fun entry => (entry.1, value scope entry.2)
  current : invocation.current = scope.current
  data : invocation.data = scope.data

section

variable (hfail : ∀ {α : Type} (scope : Scope φ) (error : RenderError),
    invariant.Holds scope (Run.fail error : Run σ α))
  (hbody : ∀ {scope : Scope φ} {request : BodyRequest φ} {body : Run σ String},
    invariant.Holds (interpreter.entered scope request) body →
    invariant.Holds scope (do
      interpreter.observe (.entered request)
      let text ← Run.attempt body
      interpreter.observe .left
      return text))

include hfail hbody

omit [Callable φ] in
theorem perform_holds {scope : Scope φ} {bodies : Bodies φ σ}
    (hbodies : ∀ inverse body, bodies.find? inverse = some body → ∀ scope, invariant.Holds scope (body scope))
    {α : Type} (action : Action φ α) : invariant.Holds scope (interpreter.perform scope bodies action) := by
  induction action with
  | done result => exact invariant.pure_holds scope result
  | fail error => exact hfail scope error
  | body request next ih =>
    rw [perform, answer]
    refine invariant.bind_holds ?_ ih
    cases hfound : bodies.find? request.inverse with
    | none => exact invariant.pure_holds scope _
    | some body => exact hbody (hbodies _ body hfound _)

/-- What holds of failures and of calls, and is kept when a body is rendered, holds of tags. -/
theorem tag_holds
    (hcalled : ∀ path call {scope : Scope φ} {helper : Helper φ} {invocation : Invocation φ},
      interpreter.Calls whole path call scope helper invocation →
      invariant.Holds scope (interpreter.observe (.called helper.isBuiltin invocation)))
    {path : Path} {call : Call} (hamong : ∃ node : Node, node.Among whole ∧ node.call? = some call)
    (hhead : call.head = .path path) (isBlock : Bool) (scope : Scope φ) (bodies : Bodies φ σ)
    (hbodies : ∀ inverse body, bodies.find? inverse = some body → ∀ scope, invariant.Holds scope (body scope)) :
    invariant.Holds scope (interpreter.tag isBlock path call scope bodies) := by
  rw [tag]
  cases hmeaning : interpreter.meaning isBlock path call scope with
  | value value => exact invariant.pure_holds scope value
  | call helper params contexts =>
    refine invariant.bind_holds (hcalled path call ?_) fun _ => perform_holds hfail hbody hbodies _
    exact ⟨hamong, hhead, hmeaning, rfl, rfl, rfl, rfl⟩

end

end Interpreter

end Stencil
