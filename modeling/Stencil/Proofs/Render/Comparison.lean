import Stencil.Proofs.Markup.Derivation
import Stencil.Proofs.Render.Interpreter

/-!
# Comparing interpreters tag by tag

Two interpretations of the same nodes are often compared, or one is looked at by itself. What is
said of them is said of bodies, which are computations from the scope they are rendered in. It holds
of whole templates if it holds of text, of each tag that occurs, and if it is kept by rows of nodes
and by blocks.
-/

namespace Stencil

variable {φ σ τ : Type} [Callable φ]

def Body.append (first rest : Body φ σ) : Body φ σ := fun scope => do
  let text ← first scope
  return text ++ (← rest scope)

/-- A relation between bodies that holds of text and of the tags among some nodes, and that rows and
blocks keep. -/
structure Interpreter.Comparison (left : Interpreter φ σ) (right : Interpreter φ τ)
    (Related : Body φ σ → Body φ τ → Prop) (nodes : List Node) : Prop where
  text (text : String) : Related (fun _ => pure text) (fun _ => pure text)
  append {first rest : Body φ σ} {first' rest' : Body φ τ} : Related first first' → Related rest rest' →
    Related (first.append rest) (first'.append rest')
  mustache (call : Call) (escaped : Bool) : Node.Among (.mustache call escaped) nodes →
    Related (left.node · (.mustache call escaped)) (right.node · (.mustache call escaped))
  block (call : Call) {program : Body φ σ} {program' : Body φ τ} {inverse : Option (Body φ σ)}
    {inverse' : Option (Body φ τ)} : (∃ node : Node, node.Among nodes ∧ node.call? = some call) →
    Related program program' → Option.Rel Related inverse inverse' →
    Related (left.block call ⟨some program, inverse⟩) (right.block call ⟨some program', inverse'⟩)
  inclusion (name : String) (context : Option Expr) : Node.Among (.inclusion name context) nodes →
    Related (left.node · (.inclusion name context)) (right.node · (.inclusion name context))

namespace Interpreter.Comparison

variable {left : Interpreter φ σ} {right : Interpreter φ τ} {Related : Body φ σ → Body φ τ → Prop}
  {whole : List Node}

mutual

theorem node (h : left.Comparison right Related whole) (node : Node) (hnode : node.Among whole) :
    Related (left.node · node) (right.node · node) := by
  match node with
  | .content text =>
    simp only [Interpreter.node]
    exact h.text text
  | .comment text =>
    simp only [Interpreter.node]
    exact h.text ""
  | .mustache call escaped => exact h.mustache call escaped hnode
  | .block call program none =>
    simp only [node_block]
    refine h.block call ⟨_, hnode, rfl⟩ ?_ .none
    exact row h program fun inner hinner => hinner.of_program hnode
  | .block call program (some inverse) =>
    simp only [node_block]
    refine h.block call ⟨_, hnode, rfl⟩ ?_ (.some ?_)
    · exact row h program fun inner hinner => hinner.of_program hnode
    · exact row h inverse fun inner hinner => hinner.of_inverse hnode
  | .inclusion name context => exact h.inclusion name context hnode

theorem row (h : left.Comparison right Related whole) (nodes : List Node)
    (hnodes : ∀ node : Node, node.Among nodes → node.Among whole) :
    Related (left.nodes · nodes) (right.nodes · nodes) := by
  match nodes with
  | [] =>
    simp only [Interpreter.nodes]
    exact h.text ""
  | first :: rest =>
    simp only [Interpreter.nodes]
    refine h.append (node h first (hnodes first (.cons_self first rest))) ?_
    exact row h rest fun inner hinner => hnodes inner (hinner.cons first)

end

theorem nodes (h : left.Comparison right Related whole) :
    Related (left.nodes · whole) (right.nodes · whole) :=
  h.row whole fun _ hnode => hnode

end Interpreter.Comparison

/-! ### Tags that mean the same

Two interpreters whose tags have the same runs have the same runs on nodes. Tags have the same runs
if they have the same meaning and the interpreters take the same notes, whatever their helpers and
options are otherwise. -/

namespace Interpreter

variable {left right : Interpreter φ σ}

/-- Interpreters whose tags have the same runs, and that render the same for their partials,
interpret the nodes alike. -/
theorem nodes_eq_of_tag {nodes : List Node}
    (htag : ∀ (node : Node) (call : Call) (path : Path), node.Among nodes → node.call? = some call →
      call.head = .path path → ∀ isBlock scope bodies,
        left.tag isBlock path call scope bodies = right.tag isBlock path call scope bodies)
    (hpartials : ∀ name context, Node.Among (.inclusion name context) nodes →
      left.partials name = right.partials name) (scope : Scope φ) :
    left.nodes scope nodes = right.nodes scope nodes := by
  have hcomparison : left.Comparison right Eq nodes :=
    { text := fun _ => rfl
      append := by
        rintro first rest _ _ rfl rfl
        rfl
      mustache := by
        intro call escaped hmem
        funext scope
        rw [node, node]
        cases hhead : call.head with
        | literal literal => rfl
        | path path => simp only [htag _ call path hmem rfl hhead false scope]
      block := by
        rintro call program _ inverse inverse' ⟨found, hmem, hcall⟩ rfl hinverse
        obtain rfl : inverse = inverse' := by
          cases hinverse with
          | none => rfl
          | some heq => rw [heq]
        funext scope
        rw [block, block]
        cases hhead : call.head with
        | literal literal => rfl
        | path path => simp only [htag found call path hmem hcall hhead true scope]
      inclusion := by
        intro name context hmem
        funext scope
        rw [node, node, hpartials name context hmem] }
  exact congrFun hcomparison.nodes scope

variable (hnote : left.note = right.note) (hdata : left.options.data = right.options.data)

include hnote

omit [Callable φ] in
theorem observe_eq_of_note (event : Event φ) : left.observe event = right.observe event := by
  unfold observe
  rw [hnote]

include hdata

omit [Callable φ] in
theorem perform_eq_of_note (scope : Scope φ) (bodies : Bodies φ σ) {α : Type} (action : Action φ α) :
    left.perform scope bodies action = right.perform scope bodies action := by
  have hobserve := observe_eq_of_note hnote
  have hanswer : ∀ request, left.answer scope bodies request = right.answer scope bodies request := by
    intro request
    simp only [answer, entered, hobserve, hdata]
  induction action with
  | done result => rfl
  | fail error => rfl
  | body request next ih => simp only [perform, hanswer, ih]

theorem tag_eq_of_meaning {isBlock : Bool} {path : Path} {call : Call} {scope : Scope φ}
    (hmeaning : left.meaning isBlock path call scope = right.meaning isBlock path call scope)
    (bodies : Bodies φ σ) : left.tag isBlock path call scope bodies = right.tag isBlock path call scope bodies := by
  have hobserve := observe_eq_of_note hnote
  have hperform := perform_eq_of_note hnote hdata scope bodies (α := Value φ)
  simp only [tag, hmeaning, hobserve, hperform]

/-- Interpreters that give the same meaning to the tags of nodes, and render the same for their
partials, interpret the nodes alike. -/
theorem nodes_eq_of_meaning {nodes : List Node}
    (hmeaning : ∀ (node : Node) (call : Call) (path : Path), node.Among nodes → node.call? = some call →
      call.head = .path path → ∀ isBlock scope,
        left.meaning isBlock path call scope = right.meaning isBlock path call scope)
    (hpartials : ∀ name context, Node.Among (.inclusion name context) nodes →
      left.partials name = right.partials name) (scope : Scope φ) :
    left.nodes scope nodes = right.nodes scope nodes := by
  refine nodes_eq_of_tag ?_ hpartials scope
  intro node call path hmem hcall hhead isBlock scope bodies
  exact tag_eq_of_meaning hnote hdata (hmeaning node call path hmem hcall hhead isBlock scope) bodies

end Interpreter

end Stencil
