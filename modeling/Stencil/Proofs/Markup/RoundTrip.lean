import Stencil.Proofs.Markup.Printable

/-!
# Printing undoes parsing

The canonical segments of printable nodes stand and stay apart, so they are what their text falls
into. Reading them adds the nodes to a draft one by one. What is parsed is printable, so the text of
what was parsed parses again, to the same nodes up to places.
-/

namespace Stencil

/-! ### The canonical segments stand -/

theorem Word.opens_spaced (kind : TagKind) (words : List Word) : kind.Opens (Word.spaced words) := by
  have hhead : (Word.spaced words).head? = some ' ' := by
    cases words with
    | nil => rfl
    | cons word words => rw [Word.spaced_cons]; rfl
  rintro - char hchar
  rw [hhead] at hchar
  obtain rfl := Option.some.inj hchar
  decide

theorem Call.Printable.stands {kind : TagKind} {call : Call} (h : call.Printable kind.closer) :
    (Segment.tag kind (Word.spaced call.toWords)).Stands :=
  ⟨Word.opens_spaced kind _, h.clear_spaced⟩

theorem Call.Printable.stands_end {call : Call} (h : call.Printable (TagKind.closer .block)) :
    (Segment.tag .endBlock (Word.spaced [call.head.toWord none])).Stands := by
  refine ⟨Word.opens_spaced _ _, Word.clear_spaced (by decide) (by decide) ?_⟩
  intro word hword
  rw [List.mem_singleton.1 hword]
  exact h.head.clear

mutual

theorem Node.stands_toSegments (node : Node) (h : node.Printable) :
    ∀ segment ∈ node.toSegments, segment.Stands := by
  match node with
  | .content text | .comment text =>
    rw [Node.Printable] at h
    rw [Node.toSegments]
    simpa using h
  | .mustache call true =>
    rw [Node.Printable] at h
    rw [Node.toSegments]
    simpa using h.1.stands
  | .mustache call false =>
    rw [Node.Printable] at h
    rw [Node.toSegments]
    simpa using h.stands
  | .block call program none =>
    rw [Node.Printable] at h
    have hprogram := Node.stands_allToSegments program h.2.2.1
    have hblock : (Segment.tag .block (Word.spaced call.toWords)).Stands := h.1.stands
    rw [Node.toSegments]
    simp only [List.mem_cons, List.mem_append, List.not_mem_nil, or_false]
    rintro segment (rfl | hmem | rfl)
    · exact hblock
    · exact hprogram segment hmem
    · exact h.1.stands_end
  | .block call program (some inverse) =>
    rw [Node.Printable] at h
    have hprogram := Node.stands_allToSegments program h.2.2.1.1
    have hinverse := Node.stands_allToSegments inverse h.2.2.2.1
    have hblock : (Segment.tag .block (Word.spaced call.toWords)).Stands := h.1.stands
    rw [Node.toSegments]
    simp only [List.mem_cons, List.mem_append, List.not_mem_nil, or_false]
    rintro segment (rfl | hmem | rfl | hmem | rfl)
    · exact hblock
    · exact hprogram segment hmem
    · exact ⟨by simp [TagKind.Opens], .nil⟩
    · exact hinverse segment hmem
    · exact h.1.stands_end
  | .inclusion name context =>
    rw [Node.Printable] at h
    rw [Node.toSegments]
    intro segment hmem
    rw [List.mem_singleton.1 hmem]
    refine ⟨Word.opens_spaced _ _, Word.clear_spaced (by decide) (by decide) ?_⟩
    intro word hword
    rcases List.mem_cons.1 hword with rfl | hword
    · exact h.1.2
    · cases context with
      | none => simp at hword
      | some expr =>
        obtain rfl : word = expr.toWord none := by simpa using hword
        exact (h.2 expr rfl).clear

theorem Node.stands_allToSegments (nodes : List Node) (h : Node.allPrintable nodes) :
    ∀ segment ∈ Node.allToSegments nodes, segment.Stands := by
  match nodes with
  | [] =>
    rw [Node.allToSegments]
    simp
  | node :: rest =>
    rw [Node.allPrintable] at h
    have hnode := Node.stands_toSegments node h.1
    have hrest := Node.stands_allToSegments rest h.2.2
    rw [Node.allToSegments]
    intro segment hmem
    rcases List.mem_append.1 hmem with hmem | hmem
    · exact hnode segment hmem
    · exact hrest segment hmem

end

/-! ### The canonical segments stay apart -/

theorem Node.toSegments_ne_nil (node : Node) : node.toSegments ≠ [] := by
  match node with
  | .content _ | .comment _ | .mustache _ true | .mustache _ false | .block _ _ none
  | .block _ _ (some _) | .inclusion _ _ =>
    rw [Node.toSegments]
    simp

/-- The last segment of a node is its text if it is one, and anything can follow it otherwise. -/
theorem Node.getLast?_toSegments {node : Node} {last : Segment} (h : last ∈ node.toSegments.getLast?) :
    (∃ text, node = .content text ∧ last = .text text.toList) ∨ ∀ next, last.StaysApart next := by
  match node with
  | .content text =>
    rw [Node.toSegments] at h
    obtain rfl : .text text.toList = last := by simpa using h
    exact .inl ⟨text, rfl, rfl⟩
  | .comment _ | .mustache _ true | .mustache _ false | .block _ _ none | .block _ _ (some _)
  | .inclusion _ _ =>
    rw [Node.toSegments] at h
    refine .inr fun next => ?_
    simp only [List.getLast?_cons, List.getLast?_append, Option.mem_def, Option.some_or, Option.getD_some,
      Option.some.injEq] at h
    rw [← h]
    trivial

theorem Node.head?_toSegments {node : Node} {first : Segment} (h : first ∈ node.toSegments.head?) :
    (∃ text, node = .content text ∧ first = .text text.toList) ∨ ∀ content, first ≠ .text content := by
  match node with
  | .content text =>
    rw [Node.toSegments] at h
    obtain rfl : .text text.toList = first := by simpa using h
    exact .inl ⟨text, rfl, rfl⟩
  | .comment _ | .mustache _ true | .mustache _ false | .block _ _ none | .block _ _ (some _)
  | .inclusion _ _ =>
    rw [Node.toSegments] at h
    refine .inr fun content hcontent => ?_
    simp [hcontent] at h

theorem Node.StaysApart.toSegments {left right : Node} (h : left.StaysApart right) :
    ∀ last ∈ left.toSegments.getLast?, ∀ next ∈ right.toSegments.head?, last.StaysApart next := by
  intro last hlast next hnext
  rcases Node.getLast?_toSegments hlast with ⟨text, rfl, rfl⟩ | hany
  · rcases Node.head?_toSegments hnext with ⟨other, rfl, rfl⟩ | hother
    · exact h.elim
    · have hend : text.toList.getLast? ≠ some '{' := by
        cases right with
        | content other => exact h.elim
        | _ => exact h
      cases next with
      | text content => exact absurd rfl (hother content)
      | comment | tag => exact hend
  · exact hany next

theorem Closed.allToSegments {nodes : List Node} (h : Closed nodes) (kind : TagKind) (body : List Char) :
    ∀ last ∈ (Node.allToSegments nodes).getLast?, last.StaysApart (.tag kind body) := by
  induction nodes with
  | nil => simp [Node.allToSegments]
  | cons node rest ih =>
    intro last hlast
    rw [Node.allToSegments, List.getLast?_append] at hlast
    cases rest with
    | nil =>
      rw [Node.allToSegments] at hlast
      rcases Node.getLast?_toSegments hlast with ⟨text, rfl, rfl⟩ | hany
      · exact h text rfl
      · exact hany _
    | cons next rest =>
      have hclosed : Closed (next :: rest) := fun text htext => h text (by rw [List.getLast?_cons_cons, htext])
      refine ih hclosed last ?_
      cases hrest : (Node.allToSegments (next :: rest)).getLast? with
      | some found => simpa [hrest] using hlast
      | none =>
        rw [Node.allToSegments, List.getLast?_eq_none_iff, List.append_eq_nil_iff] at hrest
        exact absurd hrest.1 next.toSegments_ne_nil

theorem Closed.isChain {nodes : List Node} (h : Closed nodes)
    (hnodes : (Node.allToSegments nodes).IsChain Segment.StaysApart) {kind opened : TagKind}
    {body openBody : List Char} {rest : List Segment}
    (hrest : (Segment.tag kind body :: rest).IsChain Segment.StaysApart) :
    (Segment.tag opened openBody :: (Node.allToSegments nodes ++ .tag kind body :: rest)).IsChain
      Segment.StaysApart := by
  refine List.isChain_cons.2 ⟨fun _ _ => trivial, hnodes.append hrest ?_⟩
  rintro last hlast _ ⟨⟩
  exact h.allToSegments kind body last hlast

mutual

theorem Node.isChain_toSegments (node : Node) (h : node.Printable) :
    node.toSegments.IsChain Segment.StaysApart := by
  match node with
  | .content _ | .comment _ | .mustache _ true | .mustache _ false | .inclusion _ _ =>
    rw [Node.toSegments]
    exact List.isChain_singleton _
  | .block call program none =>
    rw [Node.Printable] at h
    have hprogram := Node.isChain_allToSegments program h.2.2.1
    rw [Node.toSegments]
    exact h.2.2.2.isChain hprogram (List.isChain_singleton _)
  | .block call program (some inverse) =>
    rw [Node.Printable] at h
    have hprogram := Node.isChain_allToSegments program h.2.2.1.1
    have hinverse := Node.isChain_allToSegments inverse h.2.2.2.1
    rw [Node.toSegments]
    exact h.2.2.1.2.isChain hprogram (h.2.2.2.2.isChain hinverse (List.isChain_singleton _))

theorem Node.isChain_allToSegments (nodes : List Node) (h : Node.allPrintable nodes) :
    (Node.allToSegments nodes).IsChain Segment.StaysApart := by
  match nodes with
  | [] =>
    rw [Node.allToSegments]
    exact .nil
  | node :: rest =>
    rw [Node.allPrintable] at h
    have hnode := Node.isChain_toSegments node h.1
    have hrest := Node.isChain_allToSegments rest h.2.2
    rw [Node.allToSegments]
    refine hnode.append hrest fun last hlast next hnext => ?_
    cases rest with
    | nil => simp [Node.allToSegments] at hnext
    | cons other rest =>
      rw [Node.allToSegments, List.head?_append_of_ne_nil _ other.toSegments_ne_nil] at hnext
      exact (h.2.1 other rfl).toSegments last hlast next hnext

end

/-! ### The canonical segments are read as the nodes -/

theorem Draft.follows_nil_iff {left right : Draft} :
    left.Follows [] [] right ↔ left.unplaced = right.unplaced := by
  rw [Draft.Follows, Draft.unplaced, Draft.unplaced, Draft.mk.injEq, Node.allUnplaced]
  constructor
  · intro hgiven
    obtain ⟨⟨own, hleft, hright⟩, hblocks⟩ := hgiven
    exact ⟨hleft.trans hright.symm, hblocks⟩
  · intro hgiven
    obtain ⟨hnodes, hblocks⟩ := hgiven
    exact ⟨⟨Node.allUnplaced right.nodes, hnodes, rfl⟩, hblocks⟩

/-- At every place a row of segments takes a draft to another, up to places. -/
def Draft.Reads (draft : Draft) (row : List Segment) (result : Draft) : Prop :=
  ∀ place, ∃ next, Draft.segments place draft row = .ok next ∧ next.unplaced = result.unplaced

theorem Draft.Reads.of_step {draft result : Draft} {segment : Segment}
    (h : ∀ place, ∃ next, draft.Step place segment next ∧ next.unplaced = result.unplaced) :
    draft.Reads [segment] result := by
  intro place
  obtain ⟨next, hnext, hresult⟩ := h place
  exact ⟨next, Draft.segments_cons_eq_ok_iff.2 ⟨next, hnext, rfl⟩, hresult⟩

theorem Draft.Reads.append {draft middle result : Draft} {left right : List Segment}
    (hleft : draft.Reads left middle) (hright : middle.Reads right result) :
    draft.Reads (left ++ right) result := by
  intro place
  obtain ⟨next, hnext, hmiddle⟩ := hleft place
  obtain ⟨last, hlast, hresult⟩ := hright 0
  obtain ⟨moved, hmoved, hfollows⟩ := Draft.segments_moved hlast (Draft.Follows.keeps [] [])
    (Draft.follows_nil_iff.2 hmiddle) (place + byteSize (left.flatMap Segment.raw))
  refine ⟨moved, ?_, (Draft.follows_nil_iff.1 hfollows).trans hresult⟩
  rw [Draft.segments_append, hnext]
  exact hmoved

/-! ### Tags -/

theorem Expr.unplaced_toWord (key : Option String) (expr : Expr) :
    (expr.toWord key).unplaced = expr.toWord key := by
  rcases expr with (content | text | _ | _) | path <;> rfl

theorem Call.map_unplaced_toWords (call : Call) : call.toWords.map Word.unplaced = call.toWords := by
  rw [Call.toWords, List.map_cons, List.map_append, List.map_map, List.map_map, Expr.unplaced_toWord]
  congr 1
  congr 1
  · exact List.map_congr_left fun param _ => Expr.unplaced_toWord none param
  · exact List.map_congr_left fun entry _ => Expr.unplaced_toWord (some entry.1) entry.2

theorem Expr.exists_path {expr : Expr} (h : expr.isLiteral = false) : ∃ path, expr = .path path := by
  cases expr with
  | literal literal => simp [Expr.isLiteral] at h
  | path path => exact ⟨path, rfl⟩

theorem Call.Printable.trim_ne_else {closer : List Char} {call : Call} (h : call.Printable closer)
    (helse : call.toWords ≠ [elseWord]) : trim (Word.spaced call.toWords) ≠ ['e', 'l', 's', 'e'] := by
  intro htrim
  obtain ⟨found, hrow⟩ := Word.row_of_trim_else htrim 0
  obtain ⟨moved, hmoved, hsame⟩ := Word.row_spaced
    (h.forall_mem_toWords (motive := Word.WellFormed) fun _ _ hexpr => hexpr.wellFormed) 0
  obtain rfl := hmoved.unique hrow
  rw [Call.map_unplaced_toWords] at hsame
  exact helse hsame.symm

theorem Draft.unplaced_add_congr (draft : Draft) {node other : Node} (h : node.unplaced = other.unplaced) :
    (draft.add node).unplaced = (draft.add other).unplaced := by
  rw [Draft.unplaced_add, Draft.unplaced_add, h]

theorem Call.Printable.reads_escaped {call : Call} (h : call.Printable (TagKind.closer .escaped))
    (helse : call.toWords ≠ [elseWord]) (draft : Draft) :
    draft.Reads [.tag .escaped (Word.spaced call.toWords)] (draft.add (.mustache call true)) := by
  refine .of_step fun place => ?_
  obtain ⟨moved, hmoved, hsame⟩ := h.ofBody (place + byteSize (TagKind.opener .escaped))
  exact ⟨_, .escaped (h.trim_ne_else helse) hmoved,
    draft.unplaced_add_congr (by rw [Node.unplaced, Node.unplaced, hsame])⟩

theorem Call.Printable.reads_unescaped {call : Call} (h : call.Printable (TagKind.closer .unescaped))
    (draft : Draft) :
    draft.Reads [.tag .unescaped (Word.spaced call.toWords)] (draft.add (.mustache call false)) := by
  refine .of_step fun place => ?_
  obtain ⟨moved, hmoved, hsame⟩ := h.ofBody (place + byteSize (TagKind.opener .unescaped))
  exact ⟨_, .unescaped (.inl rfl) hmoved,
    draft.unplaced_add_congr (by rw [Node.unplaced, Node.unplaced, hsame])⟩

def Draft.opened (draft : Draft) (call : Call) (path : Path) : Draft :=
  ⟨draft.nodes, ⟨call, path.text, false, 0, [], none⟩ :: draft.blocks⟩

theorem Call.Printable.reads_block {call : Call} {path : Path}
    (h : call.Printable (TagKind.closer .block)) (hhead : call.head = .path path) (draft : Draft) :
    draft.Reads [.tag .block (Word.spaced call.toWords)] (draft.opened call path) := by
  refine .of_step fun place => ?_
  obtain ⟨moved, hmoved, hsame⟩ := h.ofBody (place + byteSize (TagKind.opener .block))
  have hpath : moved.head = .path path := (Call.mk.inj hsame).1.trans hhead
  refine ⟨_, .openBlock (.inl ⟨rfl, rfl⟩) hmoved hpath, ?_⟩
  rw [Draft.opened, Draft.unplaced, Draft.unplaced, List.map_cons, List.map_cons, OpenBlock.unplaced,
    OpenBlock.unplaced, hsame]

theorem Draft.reads_inverse (nodes : List Node) {block : OpenBlock} (hinverse : block.inverse = none)
    (outer : List OpenBlock) :
    Draft.Reads ⟨nodes, block :: outer⟩ [.tag .inverse []]
      ⟨nodes, { block with inverse := some [] } :: outer⟩ :=
  .of_step fun _ => ⟨_, .startInverse (.inr ⟨rfl, rfl⟩) rfl hinverse, rfl⟩

theorem Call.Printable.reads_end {call : Call} {path : Path}
    (h : call.Printable (TagKind.closer .block)) (hhead : call.head = .path path) (nodes : List Node)
    {block : OpenBlock} (hname : block.name = path.text) (outer : List OpenBlock) :
    Draft.Reads ⟨nodes, block :: outer⟩ [.tag .endBlock (Word.spaced [call.head.toWord none])]
      (Draft.add ⟨nodes, outer⟩ block.toNode) := by
  have hword : call.head.toWord none = ⟨none, path.text, false, 0⟩ := by rw [hhead]; rfl
  have hpath : Word.IsName path.text.toList := by
    have hwellFormed := h.head.wellFormed
    rw [hword] at hwellFormed
    exact hwellFormed.name rfl rfl
  refine .of_step fun place => ⟨_, .closeBlock rfl ?_, rfl⟩
  rw [hname, hword, Word.trim_spaced_bare hpath, String.ofList_toList]

theorem Node.reads_inclusion {name : String} {context : Option Expr}
    (h : (Node.inclusion name context).Printable) (draft : Draft) :
    draft.Reads (Node.inclusion name context).toSegments (draft.add (.inclusion name context)) := by
  rw [Node.Printable] at h
  rw [Node.toSegments]
  have hwords : ∀ word ∈ nameWord name :: (context.map (Expr.toWord none)).toList, word.WellFormed := by
    intro word hword
    rcases List.mem_cons.1 hword with rfl | hword
    · exact h.1.1
    · obtain ⟨expr, hexpr, rfl⟩ := Option.map_eq_some_iff.1 (Option.mem_toList.1 hword)
      exact (h.2 expr hexpr).wellFormed
  refine .of_step fun place => ⟨_, .inclusion ?_, rfl⟩
  obtain ⟨moved, hrow, hsame⟩ := Word.row_spaced hwords (place + byteSize (TagKind.opener .inclusion))
  obtain ⟨first, rest, rfl, hfirst, hrest⟩ := List.map_eq_cons_iff.1 hsame
  obtain ⟨hkey, hvalue⟩ := Word.key_eq_of_unplaced hfirst
  refine Node.inclusionOfBody_eq_ok_iff.2 ⟨first, hkey, ?_⟩
  rw [hvalue]
  cases context with
  | none =>
    obtain rfl : rest = [] := by simpa using hrest
    exact .inl ⟨hrow, rfl⟩
  | some expr =>
    obtain ⟨second, rfl, hsecond⟩ := List.map_eq_singleton_iff.1 hrest
    refine .inr ⟨second, expr, hrow, ?_, ?_, rfl⟩
    · rw [(Word.key_eq_of_unplaced hsecond).1, expr.toWord_key]
    · exact Expr.ofWord_of_unplaced hsecond.symm (h.2 expr rfl).read

mutual

theorem Node.reads_toSegments (node : Node) (h : node.Printable) (draft : Draft) :
    draft.Reads node.toSegments (draft.add node) := by
  match node with
  | .content text =>
    rw [Node.toSegments]
    refine .of_step fun place => ⟨_, .text text.toList, ?_⟩
    rw [String.ofList_toList]
  | .comment text =>
    rw [Node.toSegments]
    refine .of_step fun place => ⟨_, .comment _, ?_⟩
    rw [commentText_long, String.ofList_toList]
  | .mustache call true =>
    rw [Node.Printable] at h
    rw [Node.toSegments]
    exact h.1.reads_escaped h.2 draft
  | .mustache call false =>
    rw [Node.Printable] at h
    rw [Node.toSegments]
    exact h.reads_unescaped draft
  | .block call program none =>
    rw [Node.Printable] at h
    have hprogram := Node.reads_allToSegments program h.2.2.1
    rw [Node.toSegments]
    obtain ⟨path, hhead⟩ := Expr.exists_path h.2.1
    have hopen := h.1.reads_block hhead draft
    have hinside := hprogram (draft.opened call path)
    rw [Draft.opened, Draft.foldl_add_program, List.nil_append] at hinside
    exact hopen.append (hinside.append (h.1.reads_end hhead draft.nodes rfl draft.blocks))
  | .block call program (some inverse) =>
    rw [Node.Printable] at h
    have hprogram := Node.reads_allToSegments program h.2.2.1.1
    have hinverse := Node.reads_allToSegments inverse h.2.2.2.1
    rw [Node.toSegments]
    obtain ⟨path, hhead⟩ := Expr.exists_path h.2.1
    have hopen := h.1.reads_block hhead draft
    have hinside := hprogram (draft.opened call path)
    rw [Draft.opened, Draft.foldl_add_program, List.nil_append] at hinside
    have hmarker : Draft.Reads ⟨draft.nodes, ⟨call, path.text, false, 0, program, none⟩ :: draft.blocks⟩
        [.tag .inverse []] ⟨draft.nodes, ⟨call, path.text, false, 0, program, some []⟩ :: draft.blocks⟩ :=
      Draft.reads_inverse draft.nodes rfl draft.blocks
    have hbehind := hinverse ⟨draft.nodes, ⟨call, path.text, false, 0, program, some []⟩ :: draft.blocks⟩
    rw [Draft.foldl_add_inverse, List.nil_append] at hbehind
    exact hopen.append (hinside.append (hmarker.append
      (hbehind.append (h.1.reads_end hhead draft.nodes rfl draft.blocks))))
  | .inclusion name context => exact Node.reads_inclusion h draft

/-- The canonical segments of nodes add the nodes to a draft. -/
theorem Node.reads_allToSegments (nodes : List Node) (h : Node.allPrintable nodes) (draft : Draft) :
    draft.Reads (Node.allToSegments nodes) (nodes.foldl Draft.add draft) := by
  match nodes with
  | [] =>
    rw [Node.allToSegments]
    exact fun place => ⟨draft, rfl, rfl⟩
  | node :: rest =>
    rw [Node.allPrintable] at h
    have hnode := Node.reads_toSegments node h.1 draft
    have hrest := Node.reads_allToSegments rest h.2.2 (draft.add node)
    rw [Node.allToSegments]
    exact hnode.append hrest

end

/-! ### Printing and parsing -/

/-- **Printing undoes parsing.** The canonical text of what was parsed parses again, and the nodes
are the same but for the places of calls. -/
theorem parse_print {source : String} {nodes : List Node} (h : parse source = .ok nodes) :
    ∃ again, parse (print nodes) = .ok again ∧ Node.allUnplaced again = Node.allUnplaced nodes := by
  have hnodes := allPrintable_of_parseText (parse_eq_ok_iff.1 h)
  have hrow := segmented_of_stands (Node.stands_allToSegments nodes hnodes)
    (Node.isChain_allToSegments nodes hnodes)
  obtain ⟨⟨again, blocks⟩, hread, hsame⟩ := Node.reads_allToSegments nodes hnodes {} 0
  rw [Draft.foldl_add, List.nil_append, Draft.unplaced, Draft.unplaced, Draft.mk.injEq] at hsame
  obtain rfl : blocks = [] := by simpa using hsame.2
  refine ⟨again, parse_eq_ok_iff.2 (parseText_eq_ok_iff.2 ⟨_, ?_, hread⟩), hsame.1⟩
  rw [print, String.toList_ofList]
  exact hrow

/-- An inverted block with a quote and braces in a string, a short comment, and lone braces. -/
theorem parse_print_inverted_block :
    ∃ nodes,
      parse "\x7b\x7b^a k=\"\\\"\x7d\x7d\"\x7d\x7d\x7b\x7b! n \x7d\x7d\x7b\x7belse\x7d\x7d\x7b \x7b\x7b/a\x7d\x7d\x7b" =
        .ok nodes ∧
      ∃ again, parse (print nodes) = .ok again ∧ Node.allUnplaced again = Node.allUnplaced nodes := by
  have hparse :
      parse "\x7b\x7b^a k=\"\\\"\x7d\x7d\"\x7d\x7d\x7b\x7b! n \x7d\x7d\x7b\x7belse\x7d\x7d\x7b \x7b\x7b/a\x7d\x7d\x7b" =
        .ok [.block ⟨.path ⟨"a", 0, false, ["a"]⟩, [], [("k", .literal (.string "\"\x7d\x7d"))], ⟨3, 13⟩⟩
          [.content "\x7b "] (some [.comment " n "]), .content "\x7b"] := rfl
  exact ⟨_, hparse, parse_print hparse⟩

end Stencil
