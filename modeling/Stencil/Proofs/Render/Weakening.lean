import Stencil.Demo.Page
import Stencil.Proofs.Render.Tags

/-!
# Nodes inside one more block

A block puts one context in front of those around it, and a condition puts the current one there
once more. So nodes can be moved into the block of a condition that holds if each path that leads
out of them takes one more step to the parents. Paths that stay inside are left alone, and a path
that runs past the root before runs past it then.
-/

namespace Stencil

/-! ### One more step to the parents -/

/-- A path inside some blocks, with one more step to the parents if it leads out of them. Its text
stays. -/
def Path.deepen (inside : Nat) (path : Path) : Path :=
  if inside < path.depth then { path with depth := path.depth + 1 } else path

def Expr.deepen (inside : Nat) : Expr → Expr
  | .literal value => .literal value
  | .path found => .path (found.deepen inside)

def Call.deepen (inside : Nat) (call : Call) : Call where
  head := call.head.deepen inside
  params := call.params.map (Expr.deepen inside)
  hash := call.hash.map fun entry => (entry.1, entry.2.deepen inside)
  span := call.span

mutual

/-- A node inside some blocks. The bodies of a block are inside one block more, its call is not. -/
def Node.deepen (inside : Nat) : Node → Node
  | .content text => .content text
  | .comment text => .comment text
  | .mustache call escaped => .mustache (call.deepen inside) escaped
  | .block call program none => .block (call.deepen inside) (Node.allDeepen (inside + 1) program) none
  | .block call program (some inverse) =>
    .block (call.deepen inside) (Node.allDeepen (inside + 1) program) (some (Node.allDeepen (inside + 1) inverse))
  | .inclusion name context => .inclusion name (context.map (Expr.deepen inside))

def Node.allDeepen (inside : Nat) : List Node → List Node
  | [] => []
  | node :: rest => node.deepen inside :: Node.allDeepen inside rest

end

def ifTrue (span : Span) (nodes : List Node) : Node :=
  .block ⟨.path ⟨"if", 0, false, ["if"]⟩, [.literal (.boolean true)], [], span⟩ nodes none

theorem Path.isSimple_deepen (inside : Nat) (path : Path) : (path.deepen inside).isSimple = path.isSimple := by
  rw [deepen]
  split
  · next hdepth =>
    have hdeep : (path.depth == 0) = false := by
      rw [beq_eq_false_iff_ne]
      omega
    simp [isSimple, hdeep]
  · rfl

/-! ### Scopes with one more context -/

variable {φ : Type}

/-- A scope with one context more, which stands behind the contexts of some blocks and the current
one. -/
structure Scope.Widened (inside : Nat) (scope wider : Scope φ) : Prop where
  near : ∀ depth ≤ inside, scope.frame? depth = wider.frame? depth
  far : ∀ depth, inside < depth → scope.frame? depth = wider.frame? (depth + 1)
  data : scope.data = wider.data

namespace Scope.Widened

theorem enter (scope : Scope φ) : scope.Widened 0 (scope.enter none none) := by
  refine ⟨fun depth hdepth => ?_, fun depth _ => rfl, rfl⟩
  obtain rfl := Nat.le_zero.1 hdepth
  rfl

variable {inside : Nat} {scope wider : Scope φ} (h : scope.Widened inside wider)

include h

theorem current : scope.current = wider.current :=
  Option.some.inj (h.near 0 (Nat.zero_le inside))

theorem frame_deepen (path : Path) : scope.frame? path.depth = wider.frame? (path.deepen inside).depth := by
  rw [Path.deepen]
  split
  · next hdepth => exact h.far path.depth hdepth
  · next hdepth => exact h.near path.depth (Nat.le_of_not_lt hdepth)

theorem expr (expr : Expr) : Expr.Same scope wider expr (expr.deepen inside) := by
  cases expr with
  | literal literal => exact .literal literal
  | path path =>
    have htext : path.text = (path.deepen inside).text := by
      rw [Path.deepen]
      split <;> rfl
    have hsegments : path.segments = (path.deepen inside).segments := by
      rw [Path.deepen]
      split <;> rfl
    exact .path htext (path.isSimple_deepen inside).symm hsegments (h.frame_deepen path)

theorem same (call : Call) : Call.Same scope wider call (call.deepen inside) := by
  refine ⟨h.current, h.data, h.expr call.head, ?_, ?_⟩
  · rw [Call.deepen, List.forall₂_map_right_iff, List.forall₂_same]
    exact fun expr _ => h.expr expr
  · rw [Call.deepen, List.forall₂_map_right_iff, List.forall₂_same]
    exact fun entry _ => ⟨rfl, h.expr entry.2⟩

/-- Inside a block, the one more context stands one step further out. -/
theorem entered {σ τ : Type} {left : Interpreter φ σ} {right : Interpreter φ τ}
    (hdata : left.options.data = right.options.data) (request : BodyRequest φ) :
    (left.entered scope request).Widened (inside + 1) (right.entered wider request) := by
  refine ⟨fun depth hdepth => ?_, fun depth hdepth => ?_, ?_⟩
  · cases depth with
    | zero =>
      change some (request.context.getD scope.current) = some (request.context.getD wider.current)
      rw [h.current]
    | succ depth => exact h.near depth (Nat.le_of_succ_le_succ hdepth)
  · cases depth with
    | zero => omega
    | succ depth => exact h.far depth (Nat.lt_of_succ_lt_succ hdepth)
  · rw [Interpreter.entered, Interpreter.entered, hdata, h.data]

end Scope.Widened

/-! ### Nodes in a scope with one more context -/

namespace Interpreter.Related

variable {σ τ : Type} {relation : Run.Congruence σ τ} {left : Interpreter φ σ} {right : Interpreter φ τ}

mutual

theorem deepen [Callable φ] (h : left.Related relation right) {inside : Nat} {scope wider : Scope φ}
    (hwider : scope.Widened inside wider) (node : Node) :
    relation.Related (left.node scope node) (right.node wider (node.deepen inside)) := by
  match node with
  | .content text =>
    rw [Node.deepen, Interpreter.node, Interpreter.node]
    exact relation.pure_related text
  | .comment text =>
    rw [Node.deepen, Interpreter.node, Interpreter.node]
    exact relation.pure_related ""
  | .mustache call escaped =>
    rw [Node.deepen]
    exact h.mustache (hwider.same call) escaped
  | .block call program none =>
    rw [Node.deepen, node_block, node_block]
    refine h.block (hwider.same call) (.some ?_ fun _ => .none)
    exact fun request => allDeepen h (hwider.entered h.data request) program
  | .block call program (some inverse) =>
    rw [Node.deepen, node_block, node_block]
    refine h.block (hwider.same call) (.some ?_ fun request => .some ?_)
    · exact fun request => allDeepen h (hwider.entered h.data request) program
    · exact allDeepen h (hwider.entered h.data request) inverse
  | .inclusion name none =>
    rw [Node.deepen, Interpreter.node, Interpreter.node, hwider.data, hwider.current]
    exact h.partials name _ _
  | .inclusion name (some context) =>
    rw [Node.deepen, Interpreter.node, Interpreter.node, hwider.data, Option.map_some, Option.map_some,
      Option.map_some, (hwider.expr context).value]
    exact h.partials name _ _

/-- Nodes do the same with one more step for the one more context. -/
theorem allDeepen [Callable φ] (h : left.Related relation right) {inside : Nat} {scope wider : Scope φ}
    (hwider : scope.Widened inside wider) (nodes : List Node) :
    relation.Related (left.nodes scope nodes) (right.nodes wider (Node.allDeepen inside nodes)) := by
  match nodes with
  | [] =>
    rw [Node.allDeepen, Interpreter.nodes, Interpreter.nodes]
    exact relation.pure_related ""
  | next :: rest =>
    rw [Node.allDeepen, Interpreter.nodes, Interpreter.nodes]
    refine relation.bind_related (deepen h hwider next) fun text => ?_
    exact relation.map_related (allDeepen h hwider rest) (text ++ ·)

end

theorem refl (interpreter : Interpreter φ σ) : interpreter.Related (Run.equality σ) interpreter where
  helpers := rfl
  data := rfl
  stringParams := rfl
  knownHelpersOnly := rfl
  consults _ := rfl
  observe _ := rfl
  partials _ _ _ := rfl

end Interpreter.Related

/-! ### The block of a condition that holds -/

variable {σ : Type} [Callable φ] {environment : Environment φ} {options : CompileOptions}

section

variable (hparams : options.stringParams = false)
  (hknown : options.knownHelpersOnly = true → options.isKnown "if" = true)
  (hif : environment.helpers.find? "if" = some (.builtin .ifHelper))

include hparams hknown hif

theorem nodes_ifTrue (span : Span) (nodes : List Node) (limit : Nat) (scope : Scope φ) :
    ((environment.interpreter options limit).nodes scope [ifTrue span nodes] : Run σ String) =
      (environment.interpreter options limit).nodes (scope.enter none none) nodes := by
  have hrun : ∀ invocation : Invocation φ,
      invocation.params = [Interpreter.value scope (.literal (.boolean true))] →
      Builtin.ifHelper.run invocation = Value.string <$> Action.renderBlock := by
    intro invocation hvalues
    rw [Builtin.run_if hvalues]
    rfl
  rw [Interpreter.nodes_singleton, ifTrue, Environment.node_block_helper hknown hparams hif hrun,
    Environment.perform_renderBlock]

theorem nodes_eq_ifTrue_deepen (span : Span) (nodes : List Node) (limit : Nat) (scope : Scope φ) :
    ((environment.interpreter options limit).nodes scope nodes : Run σ String) =
      (environment.interpreter options limit).nodes scope [ifTrue span (Node.allDeepen 0 nodes)] := by
  rw [nodes_ifTrue hparams hknown hif]
  exact (Interpreter.Related.refl _).allDeepen (.enter scope) nodes

end

/-- **One block is one context.** Take a template that passes values for parameters and may call the
built-in `if`. Nodes can be moved into the block of a condition that holds, wherever they stand, if
each path that leads out of them takes one more step to the parents: in every scope they render to
the same output or error, and so does the template around them. -/
theorem render_eq_ifTrue (hparams : options.stringParams = false)
    (hknown : options.knownHelpersOnly = true → options.isKnown "if" = true)
    (hif : environment.helpers.find? "if" = some (.builtin .ifHelper)) (span : Span) (nodes : List Node)
    (limit : Nat) :
    (∀ scope : Scope φ,
      let renderer : Renderer φ Unit := ⟨.plain, environment, options, Template.run .plain environment limit⟩
      renderer.ops scope (compileNodes options nodes) =
        renderer.ops scope (compileNodes options [ifTrue span (Node.allDeepen 0 nodes)])) ∧
    ∀ (gap : Gap) (context : Value φ) (data : Option (Table (Value φ))),
      (gap.template options nodes).run .plain environment limit context data =
        (gap.template options [ifTrue span (Node.allDeepen 0 nodes)]).run .plain environment limit context data := by
  have hnodes := fun limit scope =>
    nodes_eq_ifTrue_deepen (σ := Unit) hparams hknown hif span nodes limit scope
  constructor
  · intro scope renderer
    have hops := fun nodes => renderer.ops_compileNodes scope nodes
    exact (hops nodes).trans ((hnodes limit scope).trans (hops _).symm)
  · intro gap context data
    cases limit with
    | zero => rfl
    | succ limit =>
      have hfill : ∀ filling : List Node,
          (gap.template options filling).run .plain environment (limit + 1) context data =
            gap.render (environment.interpreter options limit)
              (fun scope => (environment.interpreter options limit).nodes scope filling)
              (options.root context data) := by
        intro filling
        rw [Gap.render_nodes]
        exact Template.run_succ_eq_nodes environment options limit (gap.fill filling) context data
      rw [hfill, hfill, funext (hnodes limit)]

/-- A list inside a block, with paths that stay in the list, lead out of it, and run past the
root. -/
theorem render_eq_ifTrue_list :
    let name (text : String) (depth : Nat) (segment : String) : Expr := .path ⟨text, depth, false, [segment]⟩
    let item : Node := .mustache ⟨.path ⟨"this", 0, true, []⟩, [], [], ⟨0, 0⟩⟩ true
    let value (expr : Expr) : Node := .mustache ⟨expr, [], [], ⟨0, 0⟩⟩ true
    let each (items : List Node) : Node :=
      .block ⟨name "each" 0 "each", [name "items" 0 "items"], [], ⟨0, 0⟩⟩ items none
    let nodes : List Node :=
      [each [item, value (name "../stop" 1 "stop"), value (name "../../title" 2 "title"),
        value (name "../../../title" 3 "title")],
      .inclusion "row" (some (name "../title" 1 "title"))]
    let deeper : List Node :=
      [each [item, value (name "../stop" 1 "stop"), value (name "../../title" 3 "title"),
        value (name "../../../title" 4 "title")],
      .inclusion "row" (some (name "../title" 2 "title"))]
    let gap : Gap := .inProgram [] ⟨name "page" 0 "page", [], [], ⟨0, 0⟩⟩ (.here [] []) none []
    let options : CompileOptions := { knownHelpersOnly := true }
    let context : Value Empty := .object [("page", .object [("items", .array [.string "a", .string "b"]),
      ("stop", .string ".")]), ("title", .string "T")]
    let environment : Environment Empty := { partials := [("row", .source ⟨"<\x7b\x7bthis\x7d\x7d>", 0⟩)] }
    ((gap.template options nodes).run .plain environment 2 context none ()).1 = .done "a.Tb.T<T>" ∧
      ((gap.template options [ifTrue ⟨0, 0⟩ deeper]).run .plain environment 2 context none ()).1 =
        .done "a.Tb.T<T>" := by
  intro name item value each nodes deeper gap options context environment
  have hknown : options.knownHelpersOnly = true → options.isKnown "if" = true := fun _ => rfl
  have hif : environment.helpers.find? "if" = some (.builtin .ifHelper) := rfl
  have hsame := (render_eq_ifTrue rfl hknown hif ⟨0, 0⟩ nodes 2).2 gap context none
  have hdeeper : Node.allDeepen 0 nodes = deeper := rfl
  rw [hdeeper] at hsame
  rw [← hsame, and_self]
  decide +kernel

end Stencil
