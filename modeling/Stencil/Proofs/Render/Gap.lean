import Stencil.Proofs.Render.Reach
import Stencil.Proofs.Render.Termination

/-!
# Gaps among nodes

The nodes of a template can have a gap, inside any number of blocks, that is to be filled with other
nodes. What fills the gap is rendered whenever rendering comes there, in the scope that is there
then. If the runs at the gap are related in each of these scopes, so are the runs of the whole.
-/

namespace Stencil

/-- Nodes with a gap among them. -/
inductive Gap where
  | here (before after : List Node)
  | inProgram (before : List Node) (call : Call) (inner : Gap) (inverse : Option (List Node))
    (after : List Node)
  | inInverse (before : List Node) (call : Call) (program : List Node) (inner : Gap) (after : List Node)

namespace Gap

def fill (filling : List Node) : Gap → List Node
  | here before after => before ++ filling ++ after
  | inProgram before call inner inverse after =>
    before ++ [.block call (inner.fill filling) inverse] ++ after
  | inInverse before call program inner after =>
    before ++ [.block call program (some (inner.fill filling))] ++ after

end Gap

/-! ### Rendering around a gap -/

variable {φ σ τ : Type}

def Interpreter.between [Callable φ] (interpreter : Interpreter φ σ) (before : List Node) (middle : Body φ σ)
    (after : List Node) (scope : Scope φ) : Run σ String := do
  let text ← interpreter.nodes scope before
  let inner ← middle scope
  return text ++ inner ++ (← interpreter.nodes scope after)

theorem Interpreter.nodes_between [Callable φ] (interpreter : Interpreter φ σ) (before middle after : List Node)
    (scope : Scope φ) :
    interpreter.nodes scope (before ++ middle ++ after) =
      interpreter.between before (interpreter.nodes · middle) after scope := by
  rw [nodes_append, nodes_append, between]
  simp only [bind_assoc, pure_bind]

theorem Interpreter.nodes_singleton [Callable φ] (interpreter : Interpreter φ σ) (node : Node) (scope : Scope φ) :
    interpreter.nodes scope [node] = interpreter.node scope node := by
  simp only [nodes, pure_bind, String.append_empty, bind_pure]

def Gap.render [Callable φ] (interpreter : Interpreter φ σ) (hole : Body φ σ) : Gap → Body φ σ
  | here before after => interpreter.between before hole after
  | inProgram before call inner inverse after =>
    interpreter.between before
      (interpreter.block call ⟨some (inner.render interpreter hole),
        inverse.map fun nodes scope => interpreter.nodes scope nodes⟩) after
  | inInverse before call program inner after =>
    interpreter.between before
      (interpreter.block call ⟨some (interpreter.nodes · program),
        some (inner.render interpreter hole)⟩) after

theorem Gap.render_nodes [Callable φ] (interpreter : Interpreter φ σ) (filling : List Node) (gap : Gap) :
    gap.render interpreter (fun scope => interpreter.nodes scope filling) =
      fun scope => interpreter.nodes scope (gap.fill filling) := by
  induction gap with
  | here before after =>
    funext scope
    rw [fill, Interpreter.nodes_between, render]
  | inProgram before call inner inverse after ih =>
    funext scope
    have hblock : (interpreter.nodes · [.block call (inner.fill filling) inverse]) =
        interpreter.block call ⟨some (interpreter.nodes · (inner.fill filling)),
          inverse.map fun nodes scope => interpreter.nodes scope nodes⟩ := by
      funext scope
      rw [Interpreter.nodes_singleton, Interpreter.node_block]
    rw [fill, Interpreter.nodes_between, hblock, render, ih]
  | inInverse before call program inner after ih =>
    funext scope
    have hblock : (interpreter.nodes · [.block call program (some (inner.fill filling))]) =
        interpreter.block call ⟨some (interpreter.nodes · program),
          some (interpreter.nodes · (inner.fill filling))⟩ := by
      funext scope
      rw [Interpreter.nodes_singleton, Interpreter.node_block]
      rfl
    rw [fill, Interpreter.nodes_between, hblock, render, ih]

/-! ### Related runs at a gap -/

/-- A data frame is only there if the template tracks it. -/
def Scope.Tracked (options : CompileOptions) (scope : Scope φ) : Prop :=
  options.data = false → scope.data = none

theorem Scope.Tracked.entered {interpreter : Interpreter φ σ} {scope : Scope φ}
    (h : scope.Tracked interpreter.options) (request : BodyRequest φ) :
    (interpreter.entered scope request).Tracked interpreter.options := by
  intro hdata
  rw [Interpreter.entered, hdata]
  exact h hdata

section

variable {relation : Run.Congruence σ τ} {left : Interpreter φ σ} {right : Interpreter φ τ}
  (h : left.Related relation right)

include h

theorem Interpreter.Related.entered_eq (scope : Scope φ) : left.entered scope = right.entered scope := by
  funext request
  rw [Interpreter.entered, Interpreter.entered, h.data]

theorem Interpreter.Related.between [Callable φ] {before after : List Node} {middle : Body φ σ} {middle' : Body φ τ}
    {scope : Scope φ} (hmiddle : relation.Related (middle scope) (middle' scope)) :
    relation.Related (left.between before middle after scope)
      (right.between before middle' after scope) := by
  have hnodes : ∀ nodes, relation.Related (left.nodes scope nodes) (right.nodes scope nodes) :=
    fun nodes => h.nodes (.refl _ scope) nodes (Nat.le_refl _)
  refine relation.bind_related (hnodes before) fun text => ?_
  refine relation.bind_related hmiddle fun inner => ?_
  exact relation.map_related (hnodes after) (text ++ inner ++ ·)

/-- Runs around a gap are related if the runs at the gap are. -/
theorem Gap.render_related [Callable φ] {hole : Body φ σ} {hole' : Body φ τ}
    (hhole : ∀ scope, scope.Tracked left.options → relation.Related (hole scope) (hole' scope))
    (gap : Gap) {scope : Scope φ} (hscope : scope.Tracked left.options) :
    relation.Related (gap.render left hole scope) (gap.render right hole' scope) := by
  have hnodes : ∀ (scope : Scope φ) (nodes : List Node) (request : BodyRequest φ),
      relation.Related (left.nodes (left.entered scope request) nodes)
        (right.nodes (right.entered scope request) nodes) := by
    intro scope nodes request
    rw [h.entered_eq]
    exact h.nodes (.refl _ _) nodes (Nat.le_refl _)
  have hsame : ∀ (scope : Scope φ) (call : Call), Call.Same scope scope call call :=
    fun scope call => (Scope.Agree.refl call.depth scope).same (Nat.le_refl _)
  induction gap generalizing scope with
  | here before after => exact h.between (hhole scope hscope)
  | inProgram before call inner inverse after ih =>
    refine h.between (h.block (hsame scope call) (.some ?_ ?_))
    · intro request
      rw [← h.entered_eq]
      exact ih (hscope.entered request)
    · intro request
      cases inverse with
      | none => exact .none
      | some inverse => exact .some (hnodes scope inverse request)
  | inInverse before call program inner after ih =>
    refine h.between (h.block (hsame scope call) (.some ?_ ?_))
    · exact hnodes scope program
    · intro request
      rw [← h.entered_eq]
      exact .some (ih (hscope.entered request))

end

end Stencil
