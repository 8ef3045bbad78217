import Stencil.Demo.Page
import Stencil.Proofs.Markup.Placement
import Stencil.Proofs.Markup.Seams
import Stencil.Proofs.Render.Interpretation

/-!
# Templates one after another

Two sources that parse can be written one after another, unless a brace at the end of the first
meets a brace at the start of the second. The segments stay what they are, except that text joins
text where the sources meet. The result renders what the first renders and then what the second
renders, and fails if one of them does.
-/

namespace Stencil

/-! ### Nodes of both sources -/

theorem Op.prepend_content_append (left right : String) (ops : List Op) :
    (Op.content (left ++ right)).prepend ops = (Op.content left).prepend ((Op.content right).prepend ops) := by
  cases ops with
  | nil => rfl
  | cons op ops =>
    cases op with
    | content text => simp only [Op.prepend, String.append_assoc]
    | _ => rfl

theorem Op.foldr_prepend (op : Op) (ops rest : List Op) :
    (op.prepend ops).foldr Op.prepend rest = op.prepend (ops.foldr Op.prepend rest) := by
  cases op with
  | content text =>
    cases ops with
    | nil => rfl
    | cons next ops =>
      cases next with
      | content other => exact Op.prepend_content_append text other _
      | _ => rfl
  | _ => rfl

/-- The operations of some nodes are put in front of those of the nodes behind. -/
theorem compileNodes_append (options : CompileOptions) (left right : List Node) :
    compileNodes options (left ++ right) =
      (compileNodes options left).foldr Op.prepend (compileNodes options right) := by
  induction left with
  | nil => rw [List.nil_append, compileNodes, List.foldr_nil]
  | cons node left ih =>
    rw [List.cons_append, compileNodes, compileNodes, ih]
    cases node.compile options with
    | none => rfl
    | some op => exact (Op.foldr_prepend op _ _).symm

theorem compileNodes_append_congr {options : CompileOptions} {left right before after : List Node}
    (hbefore : compileNodes options left = compileNodes options right)
    (hafter : compileNodes options before = compileNodes options after) :
    compileNodes options (left ++ before) = compileNodes options (right ++ after) := by
  rw [compileNodes_append, compileNodes_append, hbefore, hafter]

theorem compileNodes_content_append (options : CompileOptions) (left right : String) (rest : List Node) :
    compileNodes options (.content (left ++ right) :: rest) =
      compileNodes options (.content left :: .content right :: rest) := by
  simp only [compileNodes, Node.compile, Op.prepend_content_append]

theorem Draft.eq_of_add {draft : Draft} {node : Node} {nodes : List Node}
    (h : draft.add node = ⟨nodes, []⟩) : draft = ⟨draft.nodes, []⟩ ∧ nodes = draft.nodes ++ [node] := by
  obtain ⟨own, _ | ⟨block, outer⟩⟩ := draft
  · exact ⟨rfl, (Draft.mk.inj h).1.symm⟩
  · simp [Draft.add] at h

/-- Where text meets text, the joined text takes the place of both. -/
theorem Draft.segments_append_text {leftNodes rightNodes : List Node} {leftRow rightRow : List Segment}
    {content other : List Char}
    (hleft : Draft.segments 0 {} (leftRow ++ [.text content]) = .ok ⟨leftNodes, []⟩)
    (hright : Draft.segments 0 {} (.text other :: rightRow) = .ok ⟨rightNodes, []⟩) :
    ∃ nodes, Draft.segments 0 {} (leftRow ++ .text (content ++ other) :: rightRow) = .ok ⟨nodes, []⟩ ∧
      ∀ options, compileNodes options nodes = compileNodes options (leftNodes ++ rightNodes) := by
  rw [Draft.segments_append, bind_eq_ok_iff] at hleft
  obtain ⟨draft, hdraft, hlast⟩ := hleft
  obtain ⟨hclosed, rfl⟩ := Draft.eq_of_add (Except.ok.inj hlast)
  have hfollows := Draft.Follows.start (draft.nodes ++ [.content (String.ofList (content ++ other))])
    [.content (String.ofList other)]
  have hrest : Draft.segments (0 + byteSize other) ⟨[.content (String.ofList other)], []⟩ rightRow =
      .ok ⟨rightNodes, []⟩ := hright
  obtain ⟨⟨nodes, blocks⟩, hmoved, ⟨⟨own, hnodes, hown⟩, hblocks⟩⟩ :=
    Draft.segments_moved hrest (Draft.Follows.keeps _ _) hfollows
      (0 + byteSize (leftRow.flatMap Segment.raw) + byteSize (content ++ other))
  obtain rfl : blocks = [] := by simpa using hblocks
  refine ⟨nodes, ?_, fun options => ?_⟩
  · rw [Draft.segments_append, hdraft]
    rw [hclosed]
    exact hmoved
  · have hjoined : Node.allUnplaced nodes = Node.allUnplaced draft.nodes ++
        .content (String.ofList content ++ String.ofList other) :: own := by
      rw [hnodes, Node.allUnplaced_append, Node.allUnplaced, Node.allUnplaced, Node.unplaced,
        String.ofList_append, List.append_assoc]
      rfl
    have hparts : Node.allUnplaced (draft.nodes ++ [.content (String.ofList content)] ++ rightNodes) =
        Node.allUnplaced draft.nodes ++
          .content (String.ofList content) :: .content (String.ofList other) :: own := by
      rw [Node.allUnplaced_append, Node.allUnplaced_append, hown]
      simp only [Node.allUnplaced, Node.unplaced, List.append_assoc, List.cons_append, List.nil_append]
    rw [← compileNodes_allUnplaced options nodes, hjoined,
      ← compileNodes_allUnplaced options (draft.nodes ++ _ ++ rightNodes), hparts]
    exact compileNodes_append_congr rfl (compileNodes_content_append options _ _ own)

theorem parseText_append {left right : List Char} {leftNodes rightNodes : List Node}
    (hleft : parseText left = .ok leftNodes) (hright : parseText right = .ok rightNodes)
    (hmeet : MeetsSafely left right) :
    ∃ nodes, parseText (left ++ right) = .ok nodes ∧ ∀ options,
      compileNodes options nodes = compileNodes options (leftNodes ++ rightNodes) := by
  obtain ⟨leftRow, hleftRow, hleftDraft⟩ := parseText_eq_ok_iff.1 hleft
  obtain ⟨rightRow, hrightRow, hrightDraft⟩ := parseText_eq_ok_iff.1 hright
  have hstands : ∀ segment ∈ leftRow ++ rightRow, segment.Stands :=
    List.forall_mem_append.2 ⟨Draft.stands_of_segments hleftRow hleftDraft,
      Draft.stands_of_segments hrightRow hrightDraft⟩
  by_cases htext : ∃ content other, leftRow.getLast? = some (.text content) ∧
      rightRow.head? = some (.text other)
  · obtain ⟨content, other, hcontent, hother⟩ := htext
    obtain ⟨before, rfl⟩ := List.getLast?_eq_some_iff.1 hcontent
    obtain ⟨after, rfl⟩ := List.head?_eq_some_iff.1 hother
    obtain ⟨nodes, hnodes, hcompile⟩ := Draft.segments_append_text hleftDraft hrightDraft
    have hstands' : ∀ segment ∈ before ++ [.text content] ++ .text other :: after, segment.Stands :=
      hstands
    exact ⟨nodes, parseText_eq_ok_iff.2
      ⟨_, hleftRow.append_text hrightRow hstands' hmeet, hnodes⟩, hcompile⟩
  · have hrow := hleftRow.append hrightRow hstands hmeet fun content other hcontent hother =>
      htext ⟨content, other, hcontent, hother⟩
    have hfollows := Draft.Follows.start leftNodes []
    obtain ⟨⟨nodes, blocks⟩, hmoved, ⟨⟨own, hnodes, hown⟩, hblocks⟩⟩ :=
      Draft.segments_moved hrightDraft (Draft.Follows.keeps leftNodes []) hfollows
        (0 + byteSize (leftRow.flatMap Segment.raw))
    obtain rfl : blocks = [] := by simpa using hblocks
    refine ⟨nodes, parseText_eq_ok_iff.2 ⟨_, hrow, ?_⟩, fun options => ?_⟩
    · rw [Draft.segments_append, hleftDraft]
      exact hmoved
    · rw [← compileNodes_allUnplaced, hnodes, ← compileNodes_allUnplaced options (leftNodes ++ rightNodes),
        Node.allUnplaced_append, hown]
      simp [Node.allUnplaced]

/-! ### Rendering both -/

def Outcome.append : Outcome String → Outcome String → Outcome String
  | .done left, .done right => .done (left ++ right)
  | .done _, failure => failure
  | failure, _ => failure

theorem Template.run_append {φ σ : Type} [Callable φ] (host : Host φ σ) (environment : Environment φ)
    (options : CompileOptions) {nodes left right : List Node}
    (h : compileNodes options nodes = compileNodes options (left ++ right)) (limit : Nat)
    (context : Value φ) (data : Option (Table (Value φ))) :
    Template.run host environment limit ⟨compileNodes options nodes, options⟩ context data = do
      let text ← Template.run host environment limit ⟨compileNodes options left, options⟩ context data
      return text ++
        (← Template.run host environment limit ⟨compileNodes options right, options⟩ context data) := by
  cases limit with
  | zero => rfl
  | succ limit =>
    simp only [h, Template.run_compileNodes]
    exact Interpreter.nodes_append _ _ left right

theorem Run.outcome_append {run left right : Run Unit String}
    (h : run = do return (← left) ++ (← right)) :
    (run ()).1 = (left ()).1.append (right ()).1 := by
  rw [h, Run.bind_apply]
  rcases left () with ⟨text | error | _, ⟨⟩⟩
  · simp only [Run.bind_apply]
    rcases right () with ⟨other | error | _, ⟨⟩⟩ <;> rfl
  · rcases right () with ⟨other | failure | _, ⟨⟩⟩ <;> rfl
  · rcases right () with ⟨other | failure | _, ⟨⟩⟩ <;> rfl

/-- **One template after another.** If two sources parse and their braces do not meet, then both
together compile, and what they render is what the first renders followed by what the second
renders, or the first error. -/
theorem render_append {φ σ : Type} [Callable φ] {left right : String} {leftNodes rightNodes : List Node}
    (hleft : parse left = .ok leftNodes) (hright : parse right = .ok rightNodes)
    (hmeet : ¬(left.toList.getLast? = some '{' ∧ right.toList.head? = some '{'))
    (options : CompileOptions) :
    ∃ first second joined, Template.compile left options = .ok first ∧
      Template.compile right options = .ok second ∧
      Template.compile (left ++ right) options = .ok joined ∧
      ∀ (environment : Environment φ) (context : Value φ),
        (∀ (host : Host φ σ) limit data,
          joined.run host environment limit context data = do
            let text ← first.run host environment limit context data
            return text ++ (← second.run host environment limit context data)) ∧
        joined.render context environment =
          (first.render context environment).append (second.render context environment) := by
  have hsafely : MeetsSafely left.toList right.toList := fun hlast hhead => hmeet ⟨hlast, hhead⟩
  obtain ⟨nodes, hnodes, hcompile⟩ :=
    parseText_append (parse_eq_ok_iff.1 hleft) (parse_eq_ok_iff.1 hright) hsafely
  rw [← String.toList_append, ← parse_eq_ok_iff] at hnodes
  refine ⟨_, _, _, Template.compile_of_parse hleft options, Template.compile_of_parse hright options,
    Template.compile_of_parse hnodes options, fun environment context => ⟨fun host limit data => ?_, ?_⟩⟩
  · exact Template.run_append host environment options (hcompile options) limit context data
  · refine Run.outcome_append ?_
    exact Template.run_append .plain environment options (hcompile options) Template.nestingLimit context
      environment.data

/-- A tag with braces in a string, an open brace at the end, and a source that starts like a
block. -/
theorem render_append_brace_sign :
    ∃ first second joined, Template.compile "\x7b\x7bh \"\x7d\x7d\"\x7d\x7d\x7b" {} = .ok first ∧
      Template.compile "#\x7b\x7bh\x7d\x7d" {} = .ok second ∧
      Template.compile "\x7b\x7bh \"\x7d\x7d\"\x7d\x7d\x7b#\x7b\x7bh\x7d\x7d" {} = .ok joined ∧
      ∀ (environment : Environment Empty) (context : Value Empty),
        joined.render context environment =
          (first.render context environment).append (second.render context environment) := by
  have hleft : parse "\x7b\x7bh \"\x7d\x7d\"\x7d\x7d\x7b" = .ok [.mustache ⟨.path ⟨"h", 0, false, ["h"]⟩,
      [.literal (.string "\x7d\x7d")], [], ⟨2, 8⟩⟩ true, .content "\x7b"] := rfl
  have hright : parse "#\x7b\x7bh\x7d\x7d" = .ok [.content "#",
      .mustache ⟨.path ⟨"h", 0, false, ["h"]⟩, [], [], ⟨3, 4⟩⟩ true] := rfl
  obtain ⟨first, second, joined, hfirst, hsecond, hjoined, h⟩ :=
    render_append (φ := Empty) (σ := Unit) hleft hright (by decide) {}
  exact ⟨first, second, joined, hfirst, hsecond, hjoined, fun environment context =>
    (h environment context).2⟩

end Stencil
