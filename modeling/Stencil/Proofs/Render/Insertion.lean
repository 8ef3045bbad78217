import Stencil.Proofs.Render.Concatenation

/-!
# Comments that are put in

A comment can be put anywhere in a source that parses, as long as it is not inside a tag or another
comment and no brace stands before it. The source still parses, and it compiles to the same
operations, in all bodies of blocks as well: of the nodes there is one more that compiles to
nothing, and if the comment is in a text, then the two parts of the text are joined again.
-/

namespace Stencil

/-! ### Drafts of the same code -/

/-- Two open blocks that compile to the same if both take the same nodes and are closed. -/
inductive OpenBlock.SameCode (options : CompileOptions) : OpenBlock → OpenBlock → Prop where
  | undivided {call other : Call} {program programOf : List Node} (name : String) (inverted : Bool)
      (place placeOf : Nat) :
    call.unplaced = other.unplaced → compileNodes options program = compileNodes options programOf →
    SameCode options ⟨call, name, inverted, place, program, none⟩ ⟨other, name, inverted, placeOf, programOf, none⟩
  | divided {call other : Call} {program programOf inverse inverseOf : List Node} (name : String)
      (inverted : Bool) (place placeOf : Nat) :
    call.unplaced = other.unplaced → compileNodes options program = compileNodes options programOf →
    compileNodes options inverse = compileNodes options inverseOf →
    SameCode options ⟨call, name, inverted, place, program, some inverse⟩
      ⟨other, name, inverted, placeOf, programOf, some inverseOf⟩

/-- Two drafts that compile to the same if both read the same rest of a template. -/
structure Draft.SameCode (options : CompileOptions) (left right : Draft) : Prop where
  nodes : compileNodes options left.nodes = compileNodes options right.nodes
  blocks : List.Forall₂ (OpenBlock.SameCode options) left.blocks right.blocks

variable {options : CompileOptions}

theorem Node.compile_block_congr {call other : Call} {program programOf : List Node}
    {inverse inverseOf : Option (List Node)} (hcall : call.unplaced = other.unplaced)
    (hprogram : compileNodes options program = compileNodes options programOf)
    (hinverse : inverse.map (compileNodes options) = inverseOf.map (compileNodes options)) :
    (Node.block call program inverse).compile options =
      (Node.block other programOf inverseOf).compile options := by
  obtain ⟨head, params, hash, span⟩ := call
  obtain ⟨headOf, paramsOf, hashOf, spanOf⟩ := other
  obtain ⟨rfl, rfl, rfl⟩ : head = headOf ∧ params = paramsOf ∧ hash = hashOf := by
    simpa [Call.unplaced] using hcall
  cases inverse with
  | none =>
    obtain rfl := Option.map_eq_none_iff.1 hinverse.symm
    rw [Node.compile, Node.compile, hprogram]
    rfl
  | some nodes =>
    obtain ⟨nodesOf, rfl, hnodes⟩ := Option.map_eq_some_iff.1 hinverse.symm
    rw [Node.compile, Node.compile, hprogram, hnodes]
    rfl

namespace OpenBlock.SameCode

variable {left right : OpenBlock}

theorem refl (block : OpenBlock) : block.SameCode options block := by
  obtain ⟨call, name, inverted, place, program, _ | inverse⟩ := block
  · exact .undivided name inverted place place rfl rfl
  · exact .divided name inverted place place rfl rfl rfl

theorem compile_toNode (h : left.SameCode options right) :
    left.toNode.compile options = right.toNode.compile options := by
  cases h with
  | undivided name inverted place placeOf hcall hprogram =>
    cases inverted with
    | false => exact Node.compile_block_congr hcall hprogram rfl
    | true => exact Node.compile_block_congr hcall rfl (congrArg some hprogram)
  | divided name inverted place placeOf hcall hprogram hinverse =>
    cases inverted with
    | false => exact Node.compile_block_congr hcall hprogram (congrArg some hinverse)
    | true => exact Node.compile_block_congr hcall hinverse (congrArg some hprogram)

end OpenBlock.SameCode

namespace Draft.SameCode

variable {left right : Draft}

theorem refl (draft : Draft) : draft.SameCode options draft :=
  ⟨rfl, List.forall₂_same.2 fun block _ => .refl block⟩

theorem addAll (h : left.SameCode options right) {nodes others : List Node}
    (hnodes : compileNodes options nodes = compileNodes options others) :
    (nodes.foldl Draft.add left).SameCode options (others.foldl Draft.add right) := by
  obtain ⟨outside, leftBlocks⟩ := left
  obtain ⟨outsideOf, rightBlocks⟩ := right
  obtain ⟨houtside, hblocks⟩ := h
  cases hblocks with
  | nil =>
    rw [Draft.foldl_add, Draft.foldl_add]
    exact ⟨compileNodes_append_congr houtside hnodes, .nil⟩
  | cons hblock houter =>
    cases hblock with
    | undivided name inverted place placeOf hcall hprogram =>
      rw [Draft.foldl_add_program, Draft.foldl_add_program]
      have hprogram := compileNodes_append_congr hprogram hnodes
      exact ⟨houtside, .cons (.undivided name inverted place placeOf hcall hprogram) houter⟩
    | divided name inverted place placeOf hcall hprogram hinverse =>
      rw [Draft.foldl_add_inverse, Draft.foldl_add_inverse]
      have hinverse := compileNodes_append_congr hinverse hnodes
      exact ⟨houtside, .cons (.divided name inverted place placeOf hcall hprogram hinverse) houter⟩

theorem add (h : left.SameCode options right) {node other : Node}
    (hnode : node.compile options = other.compile options) :
    (left.add node).SameCode options (right.add other) := by
  have hnodes : compileNodes options [node] = compileNodes options [other] := by
    simp only [compileNodes, hnode]
  exact h.addAll hnodes

theorem keeps : Draft.Keeps (Draft.SameCode options) where
  add h hnode := h.add (by rw [← Node.compile_unplaced, hnode, Node.compile_unplaced])
  openBlock name inverted place behind h hcall :=
    ⟨h.nodes, .cons (.undivided name inverted place behind hcall rfl) h.blocks⟩
  innermost := by
    intro left right block outer h hblocks
    have hboth := h.blocks
    rw [hblocks] at hboth
    obtain ⟨found, rest, hfound, hrest, hleft⟩ := List.forall₂_cons_right_iff.1 hboth
    have houter : Draft.SameCode options ⟨left.nodes, rest⟩ ⟨right.nodes, outer⟩ := ⟨h.nodes, hrest⟩
    refine ⟨found, rest, hleft, ?_, fun hinverse => ?_, houter.add hfound.compile_toNode⟩
    · cases hfound <;> rfl
    · cases hfound with
      | undivided name inverted place placeOf hcall hprogram =>
        exact ⟨rfl, h.nodes, .cons (.divided name inverted place placeOf hcall hprogram rfl) hrest⟩
      | divided => cases hinverse

end Draft.SameCode

/-! ### A comment where a row is cut -/

/-- Segments that are nodes by themselves can be exchanged for others that compile to the same. -/
theorem Draft.segments_exchange {left right segments others : List Segment} {nodes nodesOf result : List Node}
    (hsegments : ∀ place draft, Draft.segments place draft segments = .ok (nodes.foldl Draft.add draft))
    (hothers : ∀ place draft, Draft.segments place draft others = .ok (nodesOf.foldl Draft.add draft))
    (hcode : compileNodes options nodesOf = compileNodes options nodes)
    (h : Draft.segments 0 {} (left ++ (segments ++ right)) = .ok ⟨result, []⟩) :
    ∃ found, Draft.segments 0 {} (left ++ (others ++ right)) = .ok ⟨found, []⟩ ∧
      compileNodes options found = compileNodes options result := by
  rw [Draft.segments_append, bind_eq_ok_iff] at h
  obtain ⟨draft, hleft, h⟩ := h
  rw [Draft.segments_append_of (hsegments _ draft)] at h
  obtain ⟨⟨found, blocks⟩, hmoved, hsame⟩ :=
    Draft.segments_moved h Draft.SameCode.keeps ((Draft.SameCode.refl draft).addAll hcode)
      (0 + rowSize left + rowSize others)
  obtain rfl : blocks = [] := List.forall₂_nil_right_iff.1 hsame.blocks
  refine ⟨found, ?_, hsame.nodes⟩
  rw [Draft.segments_append_of hleft, Draft.segments_append_of (hothers _ draft), hmoved]

theorem Segment.Cut.segments_comment {row left right : List Segment} (h : Segment.Cut row left right)
    {nodes : List Node} (hrow : Draft.segments 0 {} row = .ok ⟨nodes, []⟩) (body : List Char)
    (options : CompileOptions) :
    ∃ found, Draft.segments 0 {} (left ++ .comment body :: right) = .ok ⟨found, []⟩ ∧
      compileNodes options found = compileNodes options nodes := by
  have hcomment : ∀ place draft, Draft.segments place draft [.comment body] =
      .ok ([Node.comment (String.ofList (Draft.commentText body))].foldl Draft.add draft) := fun _ _ => rfl
  cases h with
  | between =>
    have hnothing : ∀ place draft, Draft.segments place draft [] = .ok ([].foldl Draft.add draft) :=
      fun _ _ => rfl
    exact Draft.segments_exchange hnothing hcomment rfl hrow
  | @text left right first rest =>
    have htext : ∀ place draft, Draft.segments place draft [.text (first ++ rest)] =
        .ok ([Node.content (String.ofList (first ++ rest))].foldl Draft.add draft) := fun _ _ => rfl
    have hparts : ∀ place draft, Draft.segments place draft [.text first, .comment body, .text rest] =
        .ok ([Node.content (String.ofList first), .comment (String.ofList (Draft.commentText body)),
          .content (String.ofList rest)].foldl Draft.add draft) := fun _ _ => rfl
    have hsplit : left ++ [.text first] ++ .comment body :: .text rest :: right =
        left ++ ([.text first, .comment body, .text rest] ++ right) := by simp
    rw [hsplit]
    refine Draft.segments_exchange htext hparts ?_ hrow
    rw [String.ofList_append, compileNodes_content_append]
    simp only [compileNodes, Node.compile]

/-- A source whose only token is a comment is one that stands wherever it is written. -/
theorem exists_of_tokens_comment {source : String} {span : Span} (h : tokens source = .ok [⟨.comment, span⟩]) :
    ∃ body, source.toList = (Segment.comment body).raw ∧ (Segment.comment body).Stands := by
  rw [tokens] at h
  cases hrow : (segments source.toList).all with
  | error fault => simp [hrow] at h
  | ok row =>
    rw [hrow] at h
    have hkinds := congrArg (List.map Token.kind) (Except.ok.inj h)
    have hsegmented := segments_all_eq_ok_iff.1 hrow
    rcases row with _ | ⟨first, _ | ⟨second, row⟩⟩
    · simp [Token.placed] at hkinds
    · cases first with
      | comment body =>
        have hraw := hsegmented.flatMap_raw
        rw [List.flatMap_singleton] at hraw
        exact ⟨body, hraw.symm, hsegmented.stands (by simp) _ List.mem_cons_self⟩
      | text | tag => simp [Token.placed, Segment.pieces] at hkinds
    · cases first <;> cases second <;> simp [Token.placed, Segment.pieces] at hkinds

theorem parseText_insert_comment {before after body : List Char} {nodes : List Node}
    (hparse : parseText (before ++ after) = .ok nodes)
    (houtside : ∀ row, Segmented (before ++ after) row →
      ¬Token.Inside (Token.placed 0 (row.flatMap Segment.pieces)) (byteSize before))
    (hbrace : before.getLast? ≠ some '{') (hbody : (Segment.comment body).Stands) (options : CompileOptions) :
    ∃ found, parseText (before ++ ((Segment.comment body).raw ++ after)) = .ok found ∧
      compileNodes options found = compileNodes options nodes := by
  obtain ⟨row, hrow, hnodes⟩ := parseText_eq_ok_iff.1 hparse
  have hstands := Draft.stands_of_segments hrow hnodes
  obtain ⟨left, right, hcut, hleft, hright⟩ := hrow.cut hstands (houtside row hrow)
  obtain ⟨found, hfound, hcode⟩ := hcut.segments_comment hnodes body options
  obtain ⟨hbefore, hbehind⟩ := hcut.stands hstands
  have hboth : ∀ segment ∈ left ++ .comment body :: right, segment.Stands :=
    List.forall_mem_append.2 ⟨hbefore, List.forall_mem_cons.2 ⟨hbody, hbehind⟩⟩
  have hrest : Segmented ((Segment.comment body).raw ++ after) (.comment body :: right) :=
    .cons (Segment.read?_comment hbody after) hright
  have hwhole := hleft.append hrest hboth (fun hlast => absurd hlast hbrace) (by simp)
  exact ⟨found, parseText_eq_ok_iff.2 ⟨_, hwhole, hfound⟩, hcode⟩

/-- **Comments leave no trace.** Let a source parse, and cut it where no tag and no comment is
around the place and no brace stands before it. With any comment put in there the source compiles,
with all options, to exactly the operations that it compiles to without. -/
theorem compile_insert_comment {before comment after : String} {nodes : List Node}
    (hparse : parse (before ++ after) = .ok nodes)
    (houtside : ∀ found, tokens (before ++ after) = .ok found →
      ¬Token.Inside found (byteSize before.toList))
    (hbrace : before.toList.getLast? ≠ some '{')
    (hcomment : tokens comment = .ok [⟨.comment, ⟨0, byteSize comment.toList⟩⟩]) (options : CompileOptions) :
    ∃ ops, Template.compile (before ++ after) options = .ok ⟨ops, options⟩ ∧
      Template.compile (before ++ comment ++ after) options = .ok ⟨ops, options⟩ := by
  obtain ⟨body, hraw, hbody⟩ := exists_of_tokens_comment hcomment
  have hsource := parse_eq_ok_iff.1 hparse
  rw [String.toList_append] at hsource
  have hplace : ∀ row, Segmented (before.toList ++ after.toList) row →
      ¬Token.Inside (Token.placed 0 (row.flatMap Segment.pieces)) (byteSize before.toList) := by
    intro row hrow
    refine houtside _ ?_
    rw [tokens, String.toList_append, segments_all_eq_ok_iff.2 hrow]
  obtain ⟨found, hfound, hcode⟩ := parseText_insert_comment hsource hplace hbrace hbody options
  rw [← hraw, ← String.toList_append, ← String.toList_append, ← String.append_assoc, ← parse_eq_ok_iff] at hfound
  refine ⟨compileNodes options nodes, Template.compile_of_parse hparse options, ?_⟩
  rw [Template.compile_of_parse hfound options, hcode]

/-- A comment with a quote, a tag and closing braces in it, in a text of a block that has a comment
as well. -/
theorem compile_insert_comment_in_text :
    ∃ ops, Template.compile ("\x7b\x7b#a\x7d\x7d\x7b\x7b!c\x7d\x7dx" ++ "y\x7b\x7b/a\x7d\x7d") {} = .ok ⟨ops, {}⟩ ∧
      Template.compile ("\x7b\x7b#a\x7d\x7d\x7b\x7b!c\x7d\x7dx" ++ "\x7b\x7b!--\"\x7b\x7bb\x7d\x7d--\x7d\x7d" ++
        "y\x7b\x7b/a\x7d\x7d") {} = .ok ⟨ops, {}⟩ := by
  have hparse : parse ("\x7b\x7b#a\x7d\x7d\x7b\x7b!c\x7d\x7dx" ++ "y\x7b\x7b/a\x7d\x7d") = .ok
      [.block ⟨.path ⟨"a", 0, false, ["a"]⟩, [], [], ⟨3, 4⟩⟩ [.comment "c", .content "xy"] none] := rfl
  have htokens : tokens ("\x7b\x7b#a\x7d\x7d\x7b\x7b!c\x7d\x7dx" ++ "y\x7b\x7b/a\x7d\x7d") = .ok
      [⟨.opener .block, ⟨0, 3⟩⟩, ⟨.body, ⟨3, 4⟩⟩, ⟨.closer .block, ⟨4, 6⟩⟩, ⟨.comment, ⟨6, 12⟩⟩, ⟨.text, ⟨12, 14⟩⟩,
        ⟨.opener .endBlock, ⟨14, 17⟩⟩, ⟨.body, ⟨17, 18⟩⟩, ⟨.closer .endBlock, ⟨18, 20⟩⟩] := rfl
  have hplace : byteSize "\x7b\x7b#a\x7d\x7d\x7b\x7b!c\x7d\x7dx".toList = 13 := rfl
  have hcomment : tokens "\x7b\x7b!--\"\x7b\x7bb\x7d\x7d--\x7d\x7d" = .ok [⟨.comment, ⟨0, 15⟩⟩] := rfl
  refine compile_insert_comment hparse (fun found hfound hinside => ?_) (by decide) hcomment {}
  obtain rfl := Except.ok.inj (htokens.symm.trans hfound)
  rw [hplace] at hinside
  cases hinside with
  | comment hmem hstart hstop =>
    obtain rfl : _ = Span.mk 6 12 := by simpa using hmem
    simp at hstop
  | tag htag hstart hstop =>
    simp [List.infix_cons_iff, List.cons_prefix_cons] at htag
    rcases htag with ⟨-, -, -, rfl⟩ | ⟨⟨-, rfl⟩, -⟩
    · simp at hstop
    · simp at hstart

end Stencil
