import Stencil.Proofs.Render.Congruence
import Stencil.Proofs.Table

/-!
# How far nodes reach

A path takes steps to the parents, and each block around it takes one of them back. So nodes reach
only so far beyond the scope in which they are rendered, and two scopes that agree that far are the
same to them, whatever is further out.
-/

namespace Stencil

/-! ### Reach -/

def Expr.depth : Expr → Nat
  | .literal _ => 0
  | .path found => found.depth

def Call.depth (call : Call) : Nat :=
  (call.head :: call.params ++ call.hash.map Prod.snd).foldr (fun expr most => max expr.depth most) 0

mutual

/-- The largest number of steps to the parents in a node, where each counts without the blocks of
the node around it. -/
def Node.reach : Node → Nat
  | .content _ => 0
  | .comment _ => 0
  | .mustache call _ => call.depth
  | .block call program none => max call.depth (Node.allReach program - 1)
  | .block call program (some inverse) =>
    max call.depth (max (Node.allReach program - 1) (Node.allReach inverse - 1))
  | .inclusion _ none => 0
  | .inclusion _ (some context) => context.depth

def Node.allReach : List Node → Nat
  | [] => 0
  | node :: rest => max (Node.reach node) (Node.allReach rest)

end

theorem Expr.depth_le_of_mem {expr : Expr} {exprs : List Expr} (h : expr ∈ exprs) :
    expr.depth ≤ exprs.foldr (fun expr most => max expr.depth most) 0 := by
  induction exprs with
  | nil => nomatch h
  | cons first rest ih =>
    rw [List.foldr_cons]
    cases h with
    | head => exact Nat.le_max_left _ _
    | tail _ hrest => exact Nat.le_trans (ih hrest) (Nat.le_max_right _ _)

theorem Call.depth_le {call : Call} {expr : Expr}
    (h : expr = call.head ∨ expr ∈ call.params ∨ ∃ key, (key, expr) ∈ call.hash) :
    expr.depth ≤ call.depth := by
  refine Expr.depth_le_of_mem ?_
  simp only [List.cons_append, List.mem_cons, List.mem_append, List.mem_map, Prod.exists,
    exists_eq_right]
  exact h

/-! ### Calls that say the same -/

/-- Two expressions that say the same, each in a scope of its own: one literal, or paths with the
same names from the same context. -/
inductive Expr.Same {φ : Type} (scope scope' : Scope φ) : Expr → Expr → Prop where
  | literal (literal : Literal) : Same scope scope' (.literal literal) (.literal literal)
  | path {path path' : Path} : path.text = path'.text → path.isSimple = path'.isSimple →
    path.segments = path'.segments → scope.frame? path.depth = scope'.frame? path'.depth →
    Same scope scope' (.path path) (.path path')

/-- Two calls that say the same, each in a scope of its own. -/
structure Call.Same {φ : Type} (scope scope' : Scope φ) (call call' : Call) : Prop where
  current : scope.current = scope'.current
  data : scope.data = scope'.data
  head : Expr.Same scope scope' call.head call'.head
  params : List.Forall₂ (Expr.Same scope scope') call.params call'.params
  hash : List.Forall₂ (fun entry entry' => entry.1 = entry'.1 ∧ Expr.Same scope scope' entry.2 entry'.2)
    call.hash call'.hash

section

variable {φ : Type} {scope scope' : Scope φ}

theorem Scope.find?_congr {path path' : Path} (hsegments : path.segments = path'.segments)
    (hframe : scope.frame? path.depth = scope'.frame? path'.depth) : scope.find? path = scope'.find? path' := by
  rw [find?, find?, hframe, hsegments]

theorem Expr.Same.value {expr expr' : Expr} (h : Expr.Same scope scope' expr expr') :
    Interpreter.value scope expr = Interpreter.value scope' expr' := by
  cases h with
  | literal => rfl
  | path _ _ hsegments hframe =>
    rw [Interpreter.value, Interpreter.value, Scope.find?_congr hsegments hframe]

theorem Expr.Same.paramContext {expr expr' : Expr} (h : Expr.Same scope scope' expr expr')
    (hcurrent : scope.current = scope'.current) :
    Interpreter.paramContext scope expr = Interpreter.paramContext scope' expr' := by
  cases h with
  | literal => exact hcurrent
  | path _ _ _ hframe => rw [Interpreter.paramContext, Interpreter.paramContext, hframe]

theorem Expr.Same.param {σ τ : Type} {left : Interpreter φ σ} {right : Interpreter φ τ}
    (hparams : left.options.stringParams = right.options.stringParams) {expr expr' : Expr}
    (h : Expr.Same scope scope' expr expr') : left.param scope expr = right.param scope' expr' := by
  have hvalue := h.value
  cases h with
  | literal => rfl
  | path _ _ hsegments _ =>
    rw [Interpreter.param, Interpreter.param, hparams, hvalue, Path.dotted, Path.dotted, hsegments]

theorem Call.Same.hasArguments {call call' : Call} (h : Call.Same scope scope' call call') :
    call.hasArguments = call'.hasArguments := by
  rw [Call.hasArguments, Call.hasArguments, forall₂_isEmpty_eq h.params, forall₂_isEmpty_eq h.hash]

theorem Call.Same.values {call call' : Call} (h : Call.Same scope scope' call call') :
    (call.hash.map fun entry => (entry.1, Interpreter.value scope entry.2)) =
      call'.hash.map fun entry => (entry.1, Interpreter.value scope' entry.2) :=
  map_eq_map_of_forall₂ (h.hash.imp fun _ _ hentry => Prod.ext hentry.1 hentry.2.value)

end

/-! ### Scopes that agree -/

/-- Two scopes with the same data frame and the same contexts up to some steps to the parents. -/
structure Scope.Agree {φ : Type} (reach : Nat) (scope scope' : Scope φ) : Prop where
  frame : ∀ depth ≤ reach, scope.frame? depth = scope'.frame? depth
  data : scope.data = scope'.data

namespace Scope.Agree

variable {φ : Type} {reach : Nat} {scope scope' : Scope φ}

theorem refl (reach : Nat) (scope : Scope φ) : scope.Agree reach scope :=
  ⟨fun _ _ => rfl, rfl⟩

variable (h : scope.Agree reach scope')

include h

theorem symm : scope'.Agree reach scope :=
  ⟨fun depth hdepth => (h.frame depth hdepth).symm, h.data.symm⟩

theorem current : scope.current = scope'.current :=
  Option.some.inj (h.frame 0 (Nat.zero_le reach))

theorem entered {σ τ : Type} {left : Interpreter φ σ} {right : Interpreter φ τ}
    (hdata : left.options.data = right.options.data) (request : BodyRequest φ) :
    (left.entered scope request).Agree (reach + 1) (right.entered scope' request) := by
  constructor
  · intro depth hdepth
    cases depth with
    | zero =>
      change some (request.context.getD scope.current) = some (request.context.getD scope'.current)
      rw [h.current]
    | succ depth => exact h.frame depth (Nat.le_of_succ_le_succ hdepth)
  · rw [Interpreter.entered, Interpreter.entered, hdata, h.data]

theorem expr {expr : Expr} (hexpr : expr.depth ≤ reach) : Expr.Same scope scope' expr expr := by
  cases expr with
  | literal literal => exact .literal literal
  | path found => exact .path rfl rfl rfl (h.frame _ hexpr)

theorem same {call : Call} (hcall : call.depth ≤ reach) : Call.Same scope scope' call call := by
  have hexpr : ∀ expr : Expr, expr.depth ≤ call.depth → Expr.Same scope scope' expr expr :=
    fun expr hexpr => h.expr (Nat.le_trans hexpr hcall)
  refine ⟨h.current, h.data, hexpr _ (Call.depth_le (.inl rfl)), List.forall₂_same.2 ?_, List.forall₂_same.2 ?_⟩
  · exact fun expr hmem => hexpr expr (Call.depth_le (.inr (.inl hmem)))
  · exact fun entry hmem => ⟨rfl, hexpr _ (Call.depth_le (.inr (.inr ⟨entry.1, hmem⟩)))⟩

end Scope.Agree

/-! ### Interpreters -/

/-- Two interpreters that give the same meaning to every tag and take related notes. Partials render
to related runs. -/
structure Interpreter.Related {φ σ τ : Type} (relation : Run.Congruence σ τ) (left : Interpreter φ σ)
    (right : Interpreter φ τ) : Prop where
  helpers : left.helpers = right.helpers
  data : left.options.data = right.options.data
  stringParams : left.options.stringParams = right.options.stringParams
  knownHelpersOnly : left.options.knownHelpersOnly = right.options.knownHelpersOnly
  consults : ∀ path, left.consults path = right.consults path
  observe : ∀ event, relation.Related (left.observe event) (right.observe event)
  partials : ∀ name context data,
    relation.Related (left.partials name context data) (right.partials name context data)

namespace Interpreter

namespace Related

variable {φ σ τ : Type} {relation : Run.Congruence σ τ} {left : Interpreter φ σ} {right : Interpreter φ τ}
  {reach : Nat} {scope scope' : Scope φ}

section

variable (h : left.Related relation right) {call call' : Call} (hsame : Call.Same scope scope' call call')

include h hsame

theorem meaning_eq [Callable φ] (isBlock : Bool) {path path' : Path}
    (hpath : Expr.Same scope scope' (.path path) (.path path')) :
    left.meaning isBlock path call scope = right.meaning isBlock path' call' scope' := by
  cases hpath with
  | path htext hsimple hsegments hframe =>
    have hconsults : left.consults path = right.consults path' := by
      rw [h.consults, Interpreter.consults, Interpreter.consults, hsimple, hsegments]
    have hparams : call.params.map (left.param scope) = call'.params.map (right.param scope') :=
      map_eq_map_of_forall₂ (hsame.params.imp fun _ _ hparam => hparam.param h.stringParams)
    have hcontexts : call.params.map (paramContext scope) = call'.params.map (paramContext scope') :=
      map_eq_map_of_forall₂ (hsame.params.imp fun _ _ hparam => hparam.paramContext hsame.current)
    have hhook : ∀ builtin, left.hook builtin = right.hook builtin := by
      intro builtin
      rw [hook, hook, h.helpers]
    rw [meaning, meaning, hparams, hcontexts, hconsults, htext, Scope.find?_congr hsegments hframe, h.helpers,
      h.stringParams, h.knownHelpersOnly, hhook, hhook, hsame.hasArguments]

/-- Tags are related if their calls say the same, and the bodies are related where the helper asks
for them. -/
theorem tag_of_asksOnly [Callable φ] (isBlock : Bool) {path path' : Path}
    (hpath : Expr.Same scope scope' (.path path) (.path path')) {bodies : Bodies φ σ} {bodies' : Bodies φ τ}
    (hpresent : bodies.inverse.isSome = bodies'.inverse.isSome) {allowed : BodyRequest φ → Prop}
    (hbodies : ∀ request, allowed request → Option.Rel (fun body body' =>
      relation.Related (body (left.entered scope request)) (body' (right.entered scope' request)))
      (bodies.find? request.inverse) (bodies'.find? request.inverse))
    (hasks : ∀ helper params contexts, right.meaning isBlock path' call' scope' = .call helper params contexts →
      ∀ invocation : Invocation φ, invocation.params = params → (helper.run invocation).AsksOnly allowed) :
    relation.Related (left.tag isBlock path call scope bodies)
      (right.tag isBlock path' call' scope' bodies') := by
  have htext : path.text = path'.text := by
    cases hpath
    assumption
  rw [Interpreter.tag, Interpreter.tag, h.meaning_eq hsame isBlock hpath]
  cases hmeaning : right.meaning isBlock path' call' scope' with
  | value value => exact relation.pure_related value
  | call helper params contexts =>
    simp only [htext, hsame.values, hsame.current, hsame.data, hpresent]
    refine relation.bind_related (h.observe _) fun _ => ?_
    exact perform_related_of_asksOnly h.observe hbodies (hasks helper params contexts hmeaning _ rfl)

theorem tag [Callable φ] (isBlock : Bool) {path path' : Path}
    (hpath : Expr.Same scope scope' (.path path) (.path path')) {bodies : Bodies φ σ} {bodies' : Bodies φ τ}
    (hbodies : Bodies.Related relation (left.entered scope) (right.entered scope') bodies bodies') :
    relation.Related (left.tag isBlock path call scope bodies)
      (right.tag isBlock path' call' scope' bodies') :=
  h.tag_of_asksOnly hsame isBlock hpath hbodies.isSome_eq.2 (fun request _ => hbodies request)
    fun _ _ _ _ _ _ => .of_forall (fun _ => trivial) _

theorem mustache [Callable φ] (escaped : Bool) :
    relation.Related (left.node scope (.mustache call escaped)) (right.node scope' (.mustache call' escaped)) := by
  have hhead := hsame.head
  rw [Interpreter.node, Interpreter.node]
  generalize call.head = head at hhead ⊢
  generalize call'.head = head' at hhead ⊢
  cases hhead with
  | literal literal => exact relation.pure_related _
  | path htext hsimple hsegments hframe =>
    exact relation.map_related (h.tag hsame false (.path htext hsimple hsegments hframe) .none) _

theorem block_of_asksOnly [Callable φ] {bodies : Bodies φ σ} {bodies' : Bodies φ τ}
    (hpresent : bodies.inverse.isSome = bodies'.inverse.isSome) {allowed : BodyRequest φ → Prop}
    (hbodies : ∀ request, allowed request → Option.Rel (fun body body' =>
      relation.Related (body (left.entered scope request)) (body' (right.entered scope' request)))
      (bodies.find? request.inverse) (bodies'.find? request.inverse))
    (hasks : ∀ path, call'.head = .path path → ∀ helper params contexts,
      right.meaning true path call' scope' = .call helper params contexts →
      ∀ invocation : Invocation φ, invocation.params = params → (helper.run invocation).AsksOnly allowed) :
    relation.Related (left.block call bodies scope) (right.block call' bodies' scope') := by
  have hhead := hsame.head
  rw [Interpreter.block, Interpreter.block]
  generalize call.head = head at hhead ⊢
  generalize call'.head = head' at hhead hasks ⊢
  cases hhead with
  | literal literal => exact relation.pure_related ""
  | @path _ path htext hsimple hsegments hframe =>
    refine relation.map_related (h.tag_of_asksOnly hsame true ?_ hpresent hbodies (hasks path rfl)) _
    exact .path htext hsimple hsegments hframe

theorem block [Callable φ] {bodies : Bodies φ σ} {bodies' : Bodies φ τ}
    (hbodies : Bodies.Related relation (left.entered scope) (right.entered scope') bodies bodies') :
    relation.Related (left.block call bodies scope) (right.block call' bodies' scope') :=
  h.block_of_asksOnly hsame hbodies.isSome_eq.2 (fun request _ => hbodies request)
    fun _ _ _ _ _ _ _ _ => .of_forall (fun _ => trivial) _

end

mutual

theorem node [Callable φ] (h : left.Related relation right) {reach : Nat} {scope scope' : Scope φ}
    (hagree : scope.Agree reach scope') (node : Node) (hreach : node.reach ≤ reach) :
    relation.Related (left.node scope node) (right.node scope' node) := by
  match node with
  | .content text =>
    rw [Interpreter.node, Interpreter.node]
    exact relation.pure_related text
  | .comment text =>
    rw [Interpreter.node, Interpreter.node]
    exact relation.pure_related ""
  | .mustache call escaped =>
    rw [Node.reach] at hreach
    exact h.mustache (hagree.same hreach) escaped
  | .block call program none =>
    rw [Node.reach, Nat.max_le] at hreach
    rw [node_block, node_block]
    refine h.block (hagree.same hreach.1) (.some ?_ fun _ => .none)
    intro request
    exact nodes h (hagree.entered h.data request) program (by omega)
  | .block call program (some inverse) =>
    rw [Node.reach, Nat.max_le, Nat.max_le] at hreach
    rw [node_block, node_block]
    refine h.block (hagree.same hreach.1) (.some ?_ fun request => .some ?_)
    · intro request
      exact nodes h (hagree.entered h.data request) program (by omega)
    · exact nodes h (hagree.entered h.data request) inverse (by omega)
  | .inclusion name none =>
    rw [Interpreter.node, Interpreter.node, hagree.data, hagree.current]
    exact h.partials name _ _
  | .inclusion name (some context) =>
    rw [Node.reach] at hreach
    rw [Interpreter.node, Interpreter.node, hagree.data, hagree.current, Option.map_some, Option.map_some,
      (hagree.expr hreach).value]
    exact h.partials name _ _

/-- Nodes are related where their scopes agree as far as they reach. -/
theorem nodes [Callable φ] (h : left.Related relation right) {reach : Nat} {scope scope' : Scope φ}
    (hagree : scope.Agree reach scope') (nodes' : List Node) (hreach : Node.allReach nodes' ≤ reach) :
    relation.Related (left.nodes scope nodes') (right.nodes scope' nodes') := by
  match nodes' with
  | [] =>
    rw [Interpreter.nodes, Interpreter.nodes]
    exact relation.pure_related ""
  | next :: rest =>
    rw [Node.allReach, Nat.max_le] at hreach
    rw [Interpreter.nodes, Interpreter.nodes]
    refine relation.bind_related (node h hagree next hreach.1) fun text => ?_
    exact relation.map_related (nodes h hagree rest hreach.2) (text ++ ·)

end

end Related

end Interpreter

end Stencil
