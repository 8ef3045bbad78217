import Stencil.Proofs.Markup.Commenting
import Stencil.Proofs.Markup.Printing

/-!
# What is parsed is printable

Nodes are printable if their canonical segments stand, stay apart and can be read. Whatever is
parsed is printable: its texts, comments and calls were read from segments that stand, and a text
that ends with a brace is only ever found at the very end of a template.
-/

namespace Stencil

def elseWord : Word :=
  ⟨none, "else", false, 0⟩

/-- Two nodes whose canonical segments stay apart. -/
def Node.StaysApart : Node → Node → Prop
  | .content _, .content _ => False
  | .content text, _ => text.toList.getLast? ≠ some '{'
  | _, _ => True

/-- Nodes that a tag can follow. -/
def Closed (nodes : List Node) : Prop :=
  ∀ text, nodes.getLast? = some (.content text) → text.toList.getLast? ≠ some '{'

mutual

def Node.Printable : Node → Prop
  | .content text => (Segment.text text.toList).Stands
  | .comment text => (Segment.comment ('-' :: '-' :: (text.toList ++ ['-', '-']))).Stands
  | .mustache call true => call.Printable (TagKind.closer .escaped) ∧ call.toWords ≠ [elseWord]
  | .mustache call false => call.Printable (TagKind.closer .unescaped)
  | .block call program none =>
    call.Printable (TagKind.closer .block) ∧ call.head.isLiteral = false ∧
      Node.allPrintable program ∧ Closed program
  | .block call program (some inverse) =>
    call.Printable (TagKind.closer .block) ∧ call.head.isLiteral = false ∧
      (Node.allPrintable program ∧ Closed program) ∧ Node.allPrintable inverse ∧ Closed inverse
  | .inclusion name context =>
    ((nameWord name).WellFormed ∧ Clear (TagKind.closer .inclusion) [' '] (nameWord name).raw) ∧
      ∀ expr ∈ context, expr.Printable (TagKind.closer .inclusion) none

/-- Nodes that are printable and stay apart. -/
def Node.allPrintable : List Node → Prop
  | [] => True
  | node :: rest =>
    node.Printable ∧ (∀ next ∈ rest.head?, node.StaysApart next) ∧ Node.allPrintable rest

end

theorem Node.allPrintable_concat {nodes : List Node} {node : Node} (hnodes : Node.allPrintable nodes)
    (hnode : node.Printable) (happart : ∀ last ∈ nodes.getLast?, last.StaysApart node) :
    Node.allPrintable (nodes ++ [node]) := by
  induction nodes with
  | nil =>
    rw [List.nil_append, Node.allPrintable, Node.allPrintable]
    exact ⟨hnode, by simp, trivial⟩
  | cons first nodes ih =>
    rw [Node.allPrintable] at hnodes
    rw [List.cons_append, Node.allPrintable]
    refine ⟨hnodes.1, ?_, ih hnodes.2.2 ?_⟩
    · intro next hnext
      cases nodes with
      | nil =>
        obtain rfl : node = next := by simpa using hnext
        exact happart first rfl
      | cons second nodes => exact hnodes.2.1 next (by simpa using hnext)
    · intro last hlast
      refine happart last ?_
      rw [List.getLast?_cons]
      simp [Option.mem_def.1 hlast]

theorem Closed.staysApart {nodes : List Node} (h : Closed nodes) {node : Node}
    (hnode : ∀ text, node ≠ .content text) : ∀ last ∈ nodes.getLast?, last.StaysApart node := by
  intro last hlast
  cases last with
  | content text =>
    have hend := h text hlast
    cases node with
    | content other => exact absurd rfl (hnode other)
    | _ => exact hend
  | _ => trivial

/-! ### Drafts -/

def OpenBlock.current (block : OpenBlock) : List Node :=
  block.inverse.getD block.program

def Draft.current (draft : Draft) : List Node :=
  match draft.blocks with
  | [] => draft.nodes
  | block :: _ => block.current

structure OpenBlock.Printable (block : OpenBlock) : Prop where
  call : block.call.Printable (TagKind.closer .block)
  head : block.call.head.isLiteral = false
  program : Node.allPrintable block.program
  inverse : ∀ inverse ∈ block.inverse, Node.allPrintable inverse ∧ Closed block.program

/-- A draft of printable nodes, where tags can follow all nodes but those that are added to next. -/
structure Draft.Printable (draft : Draft) : Prop where
  nodes : Node.allPrintable draft.nodes
  blocks : ∀ block ∈ draft.blocks, block.Printable
  closed : draft.blocks ≠ [] → Closed draft.nodes
  outer : ∀ block ∈ draft.blocks.tail, Closed block.current

/-- A draft whose last node is a text only if the last segment was that text. -/
def Draft.EndsWith (draft : Draft) (previous : Option Segment) : Prop :=
  ∀ text, draft.current.getLast? = some (.content text) → previous = some (.text text.toList)

theorem OpenBlock.current_add (block : OpenBlock) (node : Node) :
    (block.add node).current = block.current ++ [node] := by
  obtain ⟨call, name, inverted, place, program, _ | inverse⟩ := block <;> rfl

theorem Draft.current_add (draft : Draft) (node : Node) :
    (draft.add node).current = draft.current ++ [node] := by
  obtain ⟨nodes, _ | ⟨block, outer⟩⟩ := draft
  · rfl
  · exact block.current_add node

theorem OpenBlock.Printable.add {block : OpenBlock} (h : block.Printable) {node : Node}
    (hnode : node.Printable) (happart : ∀ last ∈ block.current.getLast?, last.StaysApart node) :
    (block.add node).Printable := by
  obtain ⟨call, name, inverted, place, program, _ | inverse⟩ := block
  · exact ⟨h.call, h.head, Node.allPrintable_concat h.program hnode happart, by simp [OpenBlock.add]⟩
  · refine ⟨h.call, h.head, h.program, ?_⟩
    rintro _ ⟨⟩
    obtain ⟨hinverse, hclosed⟩ := h.inverse inverse rfl
    exact ⟨Node.allPrintable_concat hinverse hnode happart, hclosed⟩

theorem Draft.Printable.add {draft : Draft} (h : draft.Printable) {node : Node}
    (hnode : node.Printable) (happart : ∀ last ∈ draft.current.getLast?, last.StaysApart node) :
    (draft.add node).Printable := by
  obtain ⟨nodes, _ | ⟨block, outer⟩⟩ := draft
  · exact ⟨Node.allPrintable_concat h.nodes hnode happart, by simp [Draft.add], by simp [Draft.add],
      by simp [Draft.add]⟩
  · refine ⟨h.nodes, ?_, fun _ => h.closed (by simp), h.outer⟩
    intro other hother
    rcases List.mem_cons.1 hother with rfl | hother
    · exact (h.blocks block (by simp)).add hnode happart
    · exact h.blocks other (by simp [hother])

theorem Draft.closed_of_staysApart {draft : Draft} {previous : Option Segment} {segment : Segment}
    (hends : draft.EndsWith previous) (happart : ∀ last ∈ previous, last.StaysApart segment)
    (hsegment : ∀ content, segment ≠ .text content) : Closed draft.current := by
  intro text hlast
  have hprevious := happart _ (hends text hlast)
  cases segment with
  | text content => exact absurd rfl (hsegment content)
  | comment | tag => exact hprevious

theorem Draft.endsWith_add {draft : Draft} {node : Node} {segment : Option Segment}
    (hnode : ∀ text, node = .content text → segment = some (.text text.toList)) :
    (draft.add node).EndsWith segment := by
  intro text hlast
  rw [Draft.current_add, List.getLast?_concat] at hlast
  exact hnode text (Option.some.inj hlast)

theorem Draft.Printable.add_of_closed {draft : Draft} (h : draft.Printable) (hclosed : Closed draft.current)
    {node : Node} (hnode : node.Printable ∧ ∀ text, node ≠ .content text) (segment : Option Segment) :
    (draft.add node).Printable ∧ (draft.add node).EndsWith segment :=
  ⟨h.add hnode.1 (hclosed.staysApart hnode.2),
    Draft.endsWith_add fun text heq => absurd heq (hnode.2 text)⟩

/-! ### Nodes of tags -/

theorem Call.hasArguments_of_foldlM {words : List Word} {call result : Call}
    (h : words.foldlM Call.addWord call = .ok result) (hne : words ≠ []) : result.hasArguments = true := by
  have hadded : ∀ {before next : Call} {word : Word}, before.addWord word = .ok next →
      next.hasArguments = true := by
    intro before next word hnext
    obtain ⟨value, -, ⟨key, -, rfl⟩ | ⟨-, -, rfl⟩⟩ := Call.addWord_eq_ok_iff.1 hnext
    · simp [Call.hasArguments, Table.insert_ne_nil]
    · simp [Call.hasArguments]
  obtain ⟨word, words, rfl⟩ := List.exists_cons_of_ne_nil hne
  rw [List.foldlM_cons, bind_eq_ok_iff] at h
  obtain ⟨next, hnext, h⟩ := h
  exact Call.foldlM_addWord_induction (motive := fun call => call.hasArguments = true)
    (fun _ _ _ _ _ => hadded) (hadded hnext) h

theorem Call.toWords_ne_elseWord {place : Nat} {body : List Char} {call : Call}
    (h : Call.ofBody place body = .ok call) (hbody : trim body ≠ ['e', 'l', 's', 'e']) :
    call.toWords ≠ [elseWord] := by
  intro hwords
  obtain ⟨first, others, head, hrow, hkey, hhead, hcall, -⟩ := Call.ofBody_eq_ok_iff.1 h
  obtain rfl : call.head = head := (Call.fixed_of_foldlM_addWord hcall).1
  rw [Call.toWords, List.cons.injEq, List.append_eq_nil_iff, List.map_eq_nil_iff,
    List.map_eq_nil_iff] at hwords
  have halone : call.hasArguments = false := by simp [Call.hasArguments, hwords.2.1, hwords.2.2]
  cases others with
  | cons word words => simp [Call.hasArguments_of_foldlM hcall (by simp)] at halone
  | nil =>
    have hsame := Expr.toWord_of_ofWord (hrow.wellFormed first (by simp)) hhead
    obtain ⟨key, value, quoted, place⟩ := first
    subst hkey
    rw [hwords.1, Word.unplaced, elseWord, Word.mk.injEq] at hsame
    obtain ⟨-, rfl, rfl, -⟩ := hsame
    exact hbody hrow.trim_eq

theorem Node.printable_of_inclusionOfBody {place : Nat} {body : List Char} {node : Node}
    (hclear : Clear (TagKind.closer .inclusion) (TagKind.closer .inclusion) body)
    (h : Node.inclusionOfBody place body = .ok node) : node.Printable ∧ ∀ text, node ≠ .content text := by
  obtain ⟨first, hkey, ⟨hrow, rfl⟩ | ⟨second, context, hrow, hsecond, hcontext, rfl⟩⟩ :=
    Node.inclusionOfBody_eq_ok_iff.1 h
  · have hwords := hrow.clear (TagKind.closer_notBlank .inclusion) hclear
    have hname := nameWord_printable (hrow.wellFormed first (by simp)) hkey (hwords first (by simp))
    rw [Node.Printable]
    exact ⟨⟨hname, by simp⟩, by simp⟩
  · have hwords := hrow.clear (TagKind.closer_notBlank .inclusion) hclear
    have hname := nameWord_printable (hrow.wellFormed first (by simp)) hkey (hwords first (by simp))
    have hexpr := Expr.printable_of_ofWord (hrow.wellFormed second (by simp)) (hwords second (by simp)) hcontext
    rw [hsecond] at hexpr
    rw [Node.Printable]
    exact ⟨⟨hname, by simpa using hexpr⟩, by simp⟩

theorem OpenBlock.Printable.toNode {block : OpenBlock} (h : block.Printable) (hclosed : Closed block.current) :
    block.toNode.Printable ∧ ∀ text, block.toNode ≠ .content text := by
  have hempty : Node.allPrintable [] ∧ Closed [] := by
    rw [Node.allPrintable]
    exact ⟨trivial, by simp [Closed]⟩
  obtain ⟨call, name, inverted, place, program, inverse⟩ := block
  cases inverse with
  | none =>
    cases inverted with
    | true =>
      simp only [OpenBlock.toNode, if_true, Option.getD_none, Node.Printable]
      exact ⟨⟨h.call, h.head, hempty, h.program, hclosed⟩, by simp⟩
    | false =>
      simp only [OpenBlock.toNode, Bool.false_eq_true, if_false, Node.Printable]
      exact ⟨⟨h.call, h.head, h.program, hclosed⟩, by simp⟩
  | some inverse =>
    obtain ⟨hinverse, hprogram⟩ := h.inverse inverse rfl
    cases inverted with
    | true =>
      simp only [OpenBlock.toNode, if_true, Option.getD_some, Node.Printable]
      exact ⟨⟨h.call, h.head, ⟨hinverse, hclosed⟩, h.program, hprogram⟩, by simp⟩
    | false =>
      simp only [OpenBlock.toNode, Bool.false_eq_true, if_false, Node.Printable]
      exact ⟨⟨h.call, h.head, ⟨h.program, hprogram⟩, hinverse, hclosed⟩, by simp⟩

/-! ### Steps -/

namespace Draft

variable {draft : Draft}

theorem endsWith_of_current_eq_nil (h : draft.current = []) (segment : Option Segment) :
    draft.EndsWith segment := by
  intro text hlast
  rw [h] at hlast
  cases hlast

namespace Printable

variable (h : draft.Printable)

include h

theorem add_text {previous : Option Segment} {content : List Char} (hends : draft.EndsWith previous)
    (hstands : (Segment.text content).Stands)
    (happart : ∀ last ∈ previous, last.StaysApart (.text content)) :
    (draft.add (.content (String.ofList content))).Printable ∧
      (draft.add (.content (String.ofList content))).EndsWith (some (.text content)) := by
  constructor
  · refine h.add ?_ fun last hlast => ?_
    · rw [Node.Printable, String.toList_ofList]
      exact hstands
    · cases last with
      | content text =>
        have hfalse := happart _ (hends text hlast)
        exact hfalse
      | _ => trivial
  · refine endsWith_add ?_
    rintro text ⟨⟩
    rw [String.toList_ofList]

/-- If a tag can follow the last node, it can follow those of every open block and those outside. -/
theorem all_closed (hclosed : Closed draft.current) :
    Closed draft.nodes ∧ ∀ block ∈ draft.blocks, Closed block.current := by
  cases hblocks : draft.blocks with
  | nil =>
    rw [current, hblocks] at hclosed
    exact ⟨hclosed, by simp⟩
  | cons block outer =>
    rw [current, hblocks] at hclosed
    have houter := h.outer
    rw [hblocks, List.tail_cons] at houter
    exact ⟨h.closed (by simp [hblocks]), List.forall_mem_cons.2 ⟨hclosed, houter⟩⟩

theorem startInverse {block : OpenBlock} {outer : List OpenBlock} (hblocks : draft.blocks = block :: outer)
    (hclosed : Closed block.program) :
    Draft.Printable ⟨draft.nodes, { block with inverse := some [] } :: outer⟩ := by
  have hprintable := h.blocks
  have houter := h.outer
  rw [hblocks] at hprintable houter
  obtain ⟨hblock, hprintable⟩ := List.forall_mem_cons.1 hprintable
  refine ⟨h.nodes, List.forall_mem_cons.2 ⟨⟨hblock.call, hblock.head, hblock.program, ?_⟩, hprintable⟩,
    fun _ => h.closed (by simp [hblocks]), houter⟩
  rintro _ ⟨⟩
  rw [Node.allPrintable]
  exact ⟨trivial, hclosed⟩

theorem openBlock (hclosed : Closed draft.current) {call : Call} {path : Path} (hhead : call.head = .path path)
    (hcall : call.Printable (TagKind.closer .block)) (name : String) (inverted : Bool) (place : Nat) :
    Draft.Printable ⟨draft.nodes, ⟨call, name, inverted, place, [], none⟩ :: draft.blocks⟩ := by
  obtain ⟨hnodes, hblocks⟩ := h.all_closed hclosed
  refine ⟨h.nodes, List.forall_mem_cons.2 ⟨⟨hcall, ?_, ?_, by simp⟩, h.blocks⟩, fun _ => hnodes, hblocks⟩
  · rw [hhead]
    rfl
  · rw [Node.allPrintable]
    trivial

theorem closeBlock {block : OpenBlock} {outer : List OpenBlock} (hblocks : draft.blocks = block :: outer)
    (hclosed : Closed draft.current) (segment : Option Segment) :
    (Draft.add ⟨draft.nodes, outer⟩ block.toNode).Printable ∧
      (Draft.add ⟨draft.nodes, outer⟩ block.toNode).EndsWith segment := by
  obtain ⟨hnodes, hall⟩ := h.all_closed hclosed
  have hprintable := h.blocks
  rw [hblocks] at hprintable hall
  obtain ⟨hblock, hprintable⟩ := List.forall_mem_cons.1 hprintable
  obtain ⟨hlast, hall⟩ := List.forall_mem_cons.1 hall
  have houter : Draft.Printable ⟨draft.nodes, outer⟩ :=
    ⟨h.nodes, hprintable, fun _ => hnodes, fun other hother => hall other (List.mem_of_mem_tail hother)⟩
  refine houter.add_of_closed ?_ (hblock.toNode hlast) _
  cases outer with
  | nil => exact hnodes
  | cons other outer => exact hall other List.mem_cons_self

end Printable

end Draft

theorem Draft.Step.printable {draft next : Draft} {place : Nat} {previous : Option Segment}
    {segment : Segment} (h : draft.Step place segment next) (hdraft : draft.Printable)
    (hends : draft.EndsWith previous) (hstands : segment.Stands)
    (happart : ∀ last ∈ previous, last.StaysApart segment) :
    next.Printable ∧ next.EndsWith (some segment) := by
  cases h with
  | text content => exact hdraft.add_text hends hstands happart
  | comment body =>
    refine hdraft.add_of_closed (closed_of_staysApart hends happart (by simp)) ⟨?_, by simp⟩ _
    rw [Node.Printable, String.toList_ofList]
    exact stands_commentText hstands
  | escaped helse hcall =>
    refine hdraft.add_of_closed (closed_of_staysApart hends happart (by simp)) ⟨?_, by simp⟩ _
    rw [Node.Printable]
    exact ⟨Call.printable_of_ofBody hstands.2 hcall, Call.toWords_ne_elseWord hcall helse⟩
  | unescaped hkind hcall =>
    refine hdraft.add_of_closed (closed_of_staysApart hends happart (by simp)) ⟨?_, by simp⟩ _
    rw [Node.Printable]
    have hprintable := Call.printable_of_ofBody hstands.2 hcall
    rcases hkind with rfl | rfl
    · exact hprintable
    · exact hprintable.lengthen ⟨['}'], rfl⟩
  | @startInverse kind body block outer hkind hblocks hinverse =>
    have hclosed := closed_of_staysApart hends happart (by simp)
    rw [current, hblocks] at hclosed
    simp only [OpenBlock.current, hinverse, Option.getD_none] at hclosed
    exact ⟨hdraft.startInverse hblocks hclosed, endsWith_of_current_eq_nil rfl _⟩
  | @openBlock kind body call path inverted hkind hcall hhead =>
    have hclosed := closed_of_staysApart hends happart (by simp)
    have hprintable := Call.printable_of_ofBody hstands.2 hcall
    refine ⟨hdraft.openBlock hclosed hhead ?_ _ _ _, endsWith_of_current_eq_nil rfl _⟩
    rcases hkind with ⟨rfl, -⟩ | ⟨rfl, -, -⟩
    · exact hprintable
    · exact hprintable
  | closeBlock hblocks hname =>
    exact hdraft.closeBlock hblocks (closed_of_staysApart hends happart (by simp)) _
  | inclusion hnode =>
    exact hdraft.add_of_closed (closed_of_staysApart hends happart (by simp))
      (Node.printable_of_inclusionOfBody hstands.2 hnode) _

theorem Draft.printable_of_segments {draft last : Draft} {place : Nat} {previous : Option Segment}
    {row : List Segment} (h : Draft.segments place draft row = .ok last) (hdraft : draft.Printable)
    (hends : draft.EndsWith previous) (hstands : ∀ segment ∈ row, segment.Stands)
    (happart : (previous.toList ++ row).IsChain Segment.StaysApart) : last.Printable := by
  induction row generalizing draft place previous with
  | nil =>
    obtain rfl := Except.ok.inj h
    exact hdraft
  | cons segment rest ih =>
    obtain ⟨next, hnext, h⟩ := Draft.segments_cons_eq_ok_iff.1 h
    have hprevious : ∀ last ∈ previous, last.StaysApart segment := by
      rintro last ⟨⟩
      exact (List.isChain_cons.1 happart).1 segment rfl
    obtain ⟨hprintable, hnextEnds⟩ := hnext.printable hdraft hends (hstands segment (by simp)) hprevious
    refine ih h hprintable hnextEnds (fun other hother => hstands other (by simp [hother])) ?_
    cases previous with
    | none => exact happart
    | some last => exact happart.tail

theorem allPrintable_of_parseText {source : List Char} {nodes : List Node}
    (h : parseText source = .ok nodes) : Node.allPrintable nodes := by
  obtain ⟨row, hrow, hdraft⟩ := parseText_eq_ok_iff.1 h
  have hempty : Draft.Printable {} := by
    refine ⟨?_, by simp, by simp, by simp⟩
    rw [Node.allPrintable]
    trivial
  have hends : Draft.EndsWith {} none := by simp [Draft.EndsWith, Draft.current]
  exact (Draft.printable_of_segments hdraft hempty hends (Draft.stands_of_segments hrow hdraft)
    hrow.staysApart).nodes

end Stencil
