import Stencil.Proofs.Markup.Levels
import Stencil.Proofs.Render.Interpretation

/-!
# From nodes to operations

Compiling leaves out comments and nothing else: each tag of a level becomes one operation, in the
same order, with the parts of a block inside. Texts become operations between those of the tags,
where texts with only comments between them become one. That no block is left out is up to the
parser, since the compiler would drop a block whose head is no path.
-/

namespace Stencil

/-! ### Tags and texts -/

/-- Whether a node is neither a text nor a comment. -/
def Node.isTag : Node → Bool
  | .content _ => false
  | .comment _ => false
  | _ => true

def Node.text? : Node → Option String
  | .content text => some text
  | _ => none

def Op.isContent : Op → Bool
  | .content _ => true
  | _ => false

def Op.isTag (op : Op) : Bool :=
  !op.isContent

/-- The texts among some nodes as one operation, or none if there are no texts. -/
def Node.joinTexts (nodes : List Node) : List Op :=
  match nodes.filterMap Node.text? with
  | [] => []
  | texts => [.content (String.join texts)]

/-- The operation of a tag. The parts of a block are compiled on their own. -/
inductive Node.LowersTo (options : CompileOptions) : Node → Op → Prop where
  | literal {call : Call} {literal : Literal} (escaped : Bool) : call.head = .literal literal →
    LowersTo options (.mustache call escaped) (.literal literal escaped)
  | expression {call : Call} {path : Path} (escaped : Bool) : call.head = .path path →
    LowersTo options (.mustache call escaped) (.expression (options.invocable path call) escaped)
  | block {call : Call} {path : Path} (program : List Node) (inverse : Option (List Node)) : call.head = .path path →
    LowersTo options (.block call program inverse)
      (.block (options.invocable path call) (compileNodes options program) (inverse.map (compileNodes options)))
  | inclusion (name : String) (context : Option Expr) :
    LowersTo options (.inclusion name context) (.inclusion name (context.map CompileOptions.valueParam))

/-- Operations into which nodes are compiled without loss: one for each tag, in the same order, and
between them one for all the texts there. -/
structure Node.Lowered (options : CompileOptions) (nodes : List Node) (ops : List Op) : Prop where
  tags : List.Forall₂ (Node.LowersTo options) (nodes.filter Node.isTag) (ops.filter Op.isTag)
  apart : ops.IsChain fun left right => ¬(left.isContent = true ∧ right.isContent = true)
  texts : pieces Op.isTag ops = (pieces Node.isTag nodes).map Node.joinTexts

theorem Node.LowersTo.isTag {options : CompileOptions} {node : Node} {op : Op} (h : node.LowersTo options op) :
    node.isTag = true ∧ op.isTag = true := by
  cases h <;> exact ⟨rfl, rfl⟩

theorem Node.joinTexts_content (text : String) (nodes : List Node) :
    Node.joinTexts (.content text :: nodes) = (Op.content text).prepend (Node.joinTexts nodes) := by
  simp only [joinTexts, List.filterMap_cons, text?]
  cases nodes.filterMap text? with
  | nil => simp [Op.prepend]
  | cons next texts => simp [Op.prepend]

namespace Op

variable (text : String) (ops : List Op)

theorem filter_prepend_content : ((content text).prepend ops).filter isTag = ops.filter isTag := by
  rw [prepend.eq_def]
  split <;> simp_all [isTag, isContent]

theorem isChain_prepend_content {ops : List Op}
    (h : ops.IsChain fun left right => ¬(left.isContent = true ∧ right.isContent = true)) :
    ((content text).prepend ops).IsChain fun left right => ¬(left.isContent = true ∧ right.isContent = true) := by
  cases ops with
  | nil => exact .singleton _
  | cons op ops =>
    cases op with
    | content next =>
      obtain ⟨hnext, hops⟩ := List.isChain_cons.1 h
      exact List.isChain_cons.2 ⟨hnext, hops⟩
    | _ => exact .cons_cons (by simp [isContent]) h

/-- A text in front of operations joins what stands in front of the first tag. -/
theorem pieces_prepend_content {ops front : List Op} {others : List (List Op)}
    (h : pieces isTag ops = front :: others) :
    pieces isTag ((content text).prepend ops) = (content text).prepend front :: others := by
  have htext : ∀ text, isTag (content text) = false := fun _ => rfl
  cases ops with
  | nil =>
    obtain ⟨rfl, rfl⟩ := List.cons.inj h
    rfl
  | cons op rest =>
    cases op with
    | content next =>
      obtain ⟨piece, behind, hrest⟩ := List.exists_cons_of_ne_nil (pieces_ne_nil isTag rest)
      rw [pieces_cons_of_plain (htext next) hrest] at h
      obtain ⟨rfl, rfl⟩ := List.cons.inj h
      exact pieces_cons_of_plain (htext _) hrest
    | _ =>
      rw [pieces_cons_of_separates rfl] at h
      obtain ⟨rfl, rfl⟩ := List.cons.inj h
      exact pieces_cons_of_plain (htext text) (pieces_cons_of_separates rfl rest)

end Op

/-! ### Node by node -/

namespace Node.Lowered

variable {options : CompileOptions} {nodes : List Node} {ops : List Op}

theorem nil (options : CompileOptions) : Lowered options [] [] :=
  ⟨.nil, .nil, rfl⟩

theorem tag {node : Node} {op : Op} (h : Lowered options nodes ops) (hlowers : node.LowersTo options op) :
    Lowered options (node :: nodes) (op :: ops) := by
  obtain ⟨hnode, hop⟩ := hlowers.isTag
  refine ⟨?_, ?_, ?_⟩
  · rw [List.filter_cons_of_pos hnode, List.filter_cons_of_pos hop]
    exact .cons hlowers h.tags
  · refine List.isChain_cons.2 ⟨fun next _ hcontents => ?_, h.apart⟩
    rw [Op.isTag, hcontents.1] at hop
    cases hop
  · rw [pieces_cons_of_separates hnode, pieces_cons_of_separates hop, h.texts]
    rfl

theorem content (h : Lowered options nodes ops) (text : String) :
    Lowered options (.content text :: nodes) ((Op.content text).prepend ops) := by
  refine ⟨?_, Op.isChain_prepend_content text h.apart, ?_⟩
  · rw [Op.filter_prepend_content]
    exact h.tags
  · obtain ⟨front, others, hnodes⟩ := List.exists_cons_of_ne_nil (pieces_ne_nil Node.isTag nodes)
    have htexts := h.texts
    rw [hnodes, List.map_cons] at htexts
    rw [Op.pieces_prepend_content text htexts, pieces_cons_of_plain rfl hnodes, List.map_cons, joinTexts_content]

theorem comment (h : Lowered options nodes ops) (text : String) : Lowered options (.comment text :: nodes) ops := by
  refine ⟨h.tags, h.apart, ?_⟩
  obtain ⟨front, others, hnodes⟩ := List.exists_cons_of_ne_nil (pieces_ne_nil Node.isTag nodes)
  rw [h.texts, pieces_cons_of_plain rfl hnodes, hnodes]
  rfl

end Node.Lowered

theorem lowered_compileNodes (options : CompileOptions) {nodes : List Node}
    (h : ∀ call program inverse, .block call program inverse ∈ nodes → ∃ path, call.head = .path path) :
    Node.Lowered options nodes (compileNodes options nodes) := by
  induction nodes with
  | nil =>
    rw [compileNodes]
    exact .nil options
  | cons node nodes ih =>
    have hnodes := ih fun call program inverse hmem => h call program inverse (List.mem_cons_of_mem _ hmem)
    rw [compileNodes]
    match node with
    | .content text => exact hnodes.content text
    | .comment text => exact hnodes.comment text
    | .mustache call escaped =>
      rw [Node.compile]
      cases hhead : call.head with
      | literal literal => exact hnodes.tag (.literal escaped hhead)
      | path path => exact hnodes.tag (.expression escaped hhead)
    | .block call program none =>
      obtain ⟨path, hhead⟩ := h call program none List.mem_cons_self
      rw [Node.compile, hhead]
      exact hnodes.tag (.block program none hhead)
    | .block call program (some inverse) =>
      obtain ⟨path, hhead⟩ := h call program inverse List.mem_cons_self
      rw [Node.compile, hhead]
      exact hnodes.tag (.block program (some inverse) hhead)
    | .inclusion name context => exact hnodes.tag (.inclusion name context)

/-- **What is parsed is compiled without loss.** At every level of a template that parses, the heads
of blocks are paths, literal heads stand alone, all paths are proper, texts are neither empty nor
hold two open braces nor are neighbours, and the calls stand within the template and in its order.
So with any options no block is dropped: at every level each tag becomes one operation, in the same
order, and the texts between two tags become one. -/
theorem parse_lowers {source : String} {nodes : List Node} (h : parse source = .ok nodes) :
    (∀ options, Template.compile source options = .ok ⟨compileNodes options nodes, options⟩) ∧
    ∀ row, Node.Level nodes row → Node.Orderly source row ∧
      ∀ options, Node.Lowered options row (compileNodes options row) := by
  refine ⟨Template.compile_of_parse h, fun row hrow => ?_⟩
  have horderly := hrow.orderly h
  exact ⟨horderly, fun options => lowered_compileNodes options horderly.blocks⟩

/-- Two texts inside a block with a comment between them become one operation, in front of that of
the tag. -/
theorem parse_lowers_comment_in_block :
    ∃ nodes inside tag,
      parse "a\x7b\x7b#x 1\x7d\x7db\x7b\x7b!c\x7d\x7dd\x7b\x7by\x7d\x7d\x7b\x7b/x\x7d\x7d" = .ok nodes ∧
      Node.Level nodes inside ∧ inside = [.content "b", .comment "c", .content "d", .mustache tag true] ∧
      Node.Orderly "a\x7b\x7b#x 1\x7d\x7db\x7b\x7b!c\x7d\x7dd\x7b\x7by\x7d\x7d\x7b\x7b/x\x7d\x7d" inside ∧
      ∃ call, Node.Lowered {} inside [.content "bd", .expression call true] := by
  let tag : Call := ⟨.path ⟨"y", 0, false, ["y"]⟩, [], [], ⟨19, 20⟩⟩
  let inside : List Node := [.content "b", .comment "c", .content "d", .mustache tag true]
  let block : Node :=
    .block ⟨.path ⟨"x", 0, false, ["x"]⟩, [.literal (.number "1")], [], ⟨4, 7⟩⟩ inside none
  have hparse : parse "a\x7b\x7b#x 1\x7d\x7db\x7b\x7b!c\x7d\x7dd\x7b\x7by\x7d\x7d\x7b\x7b/x\x7d\x7d" =
      .ok [.content "a", block] := rfl
  have hblock : block ∈ [.content "a", block] := List.mem_cons_of_mem _ List.mem_cons_self
  have hlevel : Node.Level [.content "a", block] inside := .part .whole hblock (List.mem_singleton_self inside)
  obtain ⟨-, hlevels⟩ := parse_lowers hparse
  obtain ⟨horderly, hlowered⟩ := hlevels inside hlevel
  exact ⟨_, inside, tag, hparse, hlevel, rfl, horderly, _, hlowered {}⟩

end Stencil
