import Stencil.Proofs.Markup.Tokenization

/-!
# Where sources meet and where they are cut

Two sources of standing segments can be written one behind the other, unless a brace at the end of
the first meets a brace at the start of the second. The segments stay what they are, except that
text joins text where the sources meet.

The other way round, a source of standing segments can be cut at any place that is not inside a
comment or a tag. The two parts fall into the segments on the two sides, and if the place is inside
a text, then each part has its own piece of it.
-/

namespace Stencil

/-! ### Neighbours of texts -/

namespace Segment.StaysApart

theorem before_text {segment : Segment} {content : List Char} (h : segment.StaysApart (.text content))
    (other : List Char) : segment.StaysApart (.text other) := by
  cases segment with
  | text => exact h
  | comment | tag => trivial

/-- Of a text, only its last character matters to what stands behind it. -/
theorem behind_text {next : Segment} {content other : List Char} (h : (Segment.text content).StaysApart next)
    (hlast : content.getLast? = other.getLast?) : (Segment.text other).StaysApart next := by
  cases next with
  | text => exact h
  | comment | tag => exact fun hbrace => h (hlast.trans hbrace)

end Segment.StaysApart

/-! ### Where two sources meet -/

theorem Segmented.getLast?_of_text {text content : List Char} {row : List Segment}
    (h : Segmented text (row ++ [.text content])) (hne : content ≠ []) :
    text.getLast? = content.getLast? := by
  rw [← h.flatMap_raw, List.flatMap_append, List.flatMap_singleton, Segment.raw]
  exact List.getLast?_append_of_ne_nil _ hne

theorem Segmented.append {left right : List Char} {leftRow rightRow : List Segment}
    (hleft : Segmented left leftRow) (hright : Segmented right rightRow)
    (hstands : ∀ segment ∈ leftRow ++ rightRow, segment.Stands) (hmeet : MeetsSafely left right)
    (htext : ∀ content other, leftRow.getLast? = some (.text content) →
      rightRow.head? ≠ some (.text other)) :
    Segmented (left ++ right) (leftRow ++ rightRow) := by
  rw [← hleft.flatMap_raw, ← hright.flatMap_raw, ← List.flatMap_append]
  refine segmented_of_stands hstands (hleft.staysApart.append hright.staysApart ?_)
  intro last hlast next hnext
  cases last with
  | comment | tag => trivial
  | text content =>
    obtain ⟨before, rfl⟩ := List.getLast?_eq_some_iff.1 hlast
    obtain ⟨after, rfl⟩ := List.head?_eq_some_iff.1 hnext
    have hne : content ≠ [] := (hstands (.text content) (by simp)).1
    have hbrace : next.raw.head? = some '{' → content.getLast? ≠ some '{' := by
      intro hhead hcontent
      refine hmeet ((hleft.getLast?_of_text hne).trans hcontent) ?_
      rw [← hright.flatMap_raw, List.flatMap_cons, List.head?_append, hhead]
      rfl
    cases next with
    | text other => exact absurd rfl (htext content other hlast)
    | comment body => exact hbrace rfl
    | tag kind body => exact hbrace rfl

theorem Segmented.append_text {left right content other : List Char} {leftRow rightRow : List Segment}
    (hleft : Segmented left (leftRow ++ [.text content]))
    (hright : Segmented right (.text other :: rightRow))
    (hstands : ∀ segment ∈ leftRow ++ [.text content] ++ .text other :: rightRow, segment.Stands)
    (hmeet : MeetsSafely left right) :
    Segmented (left ++ right) (leftRow ++ .text (content ++ other) :: rightRow) := by
  have hcontent : (Segment.text content).Stands := hstands _ (by simp)
  have hother : (Segment.text other).Stands := hstands _ (by simp)
  have hright' := hright.flatMap_raw
  rw [List.flatMap_cons, Segment.raw] at hright'
  have hleft' := hleft.flatMap_raw
  rw [List.flatMap_append, List.flatMap_singleton, Segment.raw] at hleft'
  have htexts : MeetsSafely content other := by
    intro hlast hhead
    refine hmeet ((hleft.getLast?_of_text hcontent.1).trans hlast) ?_
    rw [← hright', List.head?_append, hhead]
    rfl
  have hjoined : (Segment.text (content ++ other)).Stands :=
    ⟨by simp [hcontent.1], hcontent.2.append hother.2 htexts⟩
  have hraw : left ++ right =
      (leftRow ++ .text (content ++ other) :: rightRow).flatMap Segment.raw := by
    rw [← hleft', ← hright', List.flatMap_append, List.flatMap_cons, Segment.raw]
    simp only [List.append_assoc]
  rw [hraw]
  refine segmented_of_stands ?_ ?_
  · obtain ⟨hbefore, hafter⟩ := List.forall_mem_append.1 hstands
    exact List.forall_mem_append.2 ⟨(List.forall_mem_append.1 hbefore).1,
      List.forall_mem_cons.2 ⟨hjoined, (List.forall_mem_cons.1 hafter).2⟩⟩
  · have hbefore := List.isChain_append.1 hleft.staysApart
    have hafter := List.isChain_cons.1 hright.staysApart
    refine hbefore.1.append (List.isChain_cons.2 ⟨fun next hnext => ?_, hafter.2⟩) ?_
    · exact (hafter.1 next hnext).behind_text (List.getLast?_append_of_ne_nil _ hother.1).symm
    · rintro last hlast _ ⟨⟩
      exact (hbefore.2.2 last hlast (.text content) rfl).before_text _

/-! ### Where a source is cut -/

/-- A place inside a comment or a tag, with some of its characters before the place and some
behind. -/
inductive Token.Inside (found : List Token) (place : Nat) : Prop where
  | comment {span : Span} : ⟨.comment, span⟩ ∈ found → span.start < place → place < span.stop → Inside found place
  | tag {kind : TagKind} {opener body closer : Span} :
    [⟨.opener kind, opener⟩, ⟨.body, body⟩, ⟨.closer kind, closer⟩] <:+: found →
    opener.start < place → place < closer.stop → Inside found place

theorem Token.Inside.behind {found : List Token} {place : Nat} (h : Token.Inside found place)
    (before : List Token) : Token.Inside (before ++ found) place := by
  cases h with
  | comment hmem hstart hstop => exact .comment (List.mem_append_right before hmem) hstart hstop
  | tag hpart hstart hstop => exact .tag (hpart.trans (List.suffix_append before found).isInfix) hstart hstop

/-- Any segment but a text has the places behind its first character and before its last one
inside. -/
theorem Segment.inside_pieces {segment : Segment} (htext : ∀ content, segment ≠ .text content) {start place : Nat}
    (hstart : start < place) (hstop : place < start + byteSize segment.raw) (rest : List Token) :
    Token.Inside (Token.placed start segment.pieces ++ rest) place := by
  cases segment with
  | text content => exact absurd rfl (htext content)
  | comment body => exact .comment List.mem_cons_self hstart hstop
  | tag kind body =>
    refine .tag ⟨[], rest, rfl⟩ hstart ?_
    simpa [Segment.raw, Nat.add_assoc] using hstop

/-- The two rows that a row is cut into, be it between two segments or inside a text. -/
inductive Segment.Cut : List Segment → List Segment → List Segment → Prop where
  | between (left right : List Segment) : Cut (left ++ right) left right
  | text (left right : List Segment) {first rest : List Char} : first ≠ [] → rest ≠ [] →
    Cut (left ++ .text (first ++ rest) :: right) (left ++ [.text first]) (.text rest :: right)

namespace Segment.Cut

variable {row left right : List Segment}

theorem cons (h : Cut row left right) (segment : Segment) : Cut (segment :: row) (segment :: left) right := by
  cases h with
  | between left right => exact .between (segment :: left) right
  | text left right hfirst hrest => exact .text (segment :: left) right hfirst hrest

/-- A row can be cut where no comment and no tag is. -/
theorem exists_of_raw {before after : List Char} (hraw : row.flatMap Segment.raw = before ++ after) (start : Nat)
    (houtside : ¬Token.Inside (Token.placed start (row.flatMap Segment.pieces)) (start + byteSize before)) :
    ∃ left right, Cut row left right ∧ left.flatMap Segment.raw = before ∧
      right.flatMap Segment.raw = after := by
  induction row generalizing before start with
  | nil =>
    obtain ⟨rfl, rfl⟩ := List.append_eq_nil_iff.1 hraw.symm
    exact ⟨[], [], .between [] [], rfl, rfl⟩
  | cons segment row ih =>
    have hplaced := Token.placed_append start segment.pieces (row.flatMap Segment.pieces)
    rw [Segment.flatMap_pieces] at hplaced
    rw [List.flatMap_cons, hplaced] at houtside
    rw [List.flatMap_cons] at hraw
    rcases List.append_eq_append_iff.1 hraw with ⟨behind, rfl, hrest⟩ | ⟨behind, hsegment, rfl⟩
    · rw [byteSize_append, ← Nat.add_assoc] at houtside
      obtain ⟨left, right, hcut, hleft, hright⟩ := ih hrest (start + byteSize segment.raw)
        fun hinside => houtside (hinside.behind _)
      exact ⟨segment :: left, right, hcut.cons segment, by rw [List.flatMap_cons, hleft], hright⟩
    · rcases eq_or_ne before [] with rfl | hbefore
      · exact ⟨[], segment :: row, .between [] _, rfl, by rw [List.flatMap_cons, hsegment]; rfl⟩
      rcases eq_or_ne behind [] with rfl | hbehind
      · exact ⟨[segment], row, .between [segment] row, by simpa using hsegment, rfl⟩
      · by_cases htext : ∃ content, segment = .text content
        · obtain ⟨content, rfl⟩ := htext
          obtain rfl : content = before ++ behind := hsegment
          exact ⟨[.text before], .text behind :: row, .text [] row hbefore hbehind,
            List.flatMap_singleton _ _, List.flatMap_cons⟩
        · refine absurd (Segment.inside_pieces (not_exists.1 htext) ?_ ?_ _) houtside
          · exact Nat.lt_add_of_pos_right (byteSize_pos hbefore)
          · rw [hsegment, byteSize_append]
            have hpos := byteSize_pos hbehind
            omega

theorem stands (h : Cut row left right) (hrow : ∀ segment ∈ row, segment.Stands) :
    (∀ segment ∈ left, segment.Stands) ∧ ∀ segment ∈ right, segment.Stands := by
  cases h with
  | between => exact List.forall_mem_append.1 hrow
  | @text left right first rest hfirst hrest =>
    obtain ⟨hleft, hright⟩ := List.forall_mem_append.1 hrow
    obtain ⟨hjoined, hright⟩ := List.forall_mem_cons.1 hright
    have hbraces := braceFree_iff.1 hjoined.2
    have hbefore : (Segment.text first).Stands :=
      ⟨hfirst, braceFree_iff.2 fun h => hbraces (h.trans (List.prefix_append _ _).isInfix)⟩
    have hbehind : (Segment.text rest).Stands :=
      ⟨hrest, braceFree_iff.2 fun h => hbraces (h.trans (List.suffix_append _ _).isInfix)⟩
    exact ⟨List.forall_mem_append.2 ⟨hleft, List.forall_mem_singleton.2 hbefore⟩,
      List.forall_mem_cons.2 ⟨hbehind, hright⟩⟩

theorem staysApart (h : Cut row left right) (hrow : row.IsChain Segment.StaysApart) :
    left.IsChain Segment.StaysApart ∧ right.IsChain Segment.StaysApart := by
  cases h with
  | between => exact ⟨(List.isChain_append.1 hrow).1, (List.isChain_append.1 hrow).2.1⟩
  | @text left right first rest hfirst hrest =>
    obtain ⟨hleft, hright, hmeet⟩ := List.isChain_append.1 hrow
    obtain ⟨hnext, hright⟩ := List.isChain_cons.1 hright
    constructor
    · refine hleft.append (.singleton _) ?_
      rintro last hlast _ ⟨⟩
      exact (hmeet last hlast _ rfl).before_text first
    · refine List.isChain_cons.2 ⟨fun next hgiven => ?_, hright⟩
      exact (hnext next hgiven).behind_text (List.getLast?_append_of_ne_nil first hrest)

end Segment.Cut

/-- The parts of a source of standing segments fall into the parts of its row. -/
theorem Segmented.cut {before after : List Char} {row : List Segment} (h : Segmented (before ++ after) row)
    (hstands : ∀ segment ∈ row, segment.Stands)
    (houtside : ¬Token.Inside (Token.placed 0 (row.flatMap Segment.pieces)) (byteSize before)) :
    ∃ left right, Segment.Cut row left right ∧ Segmented before left ∧ Segmented after right := by
  rw [← Nat.zero_add (byteSize before)] at houtside
  obtain ⟨left, right, hcut, rfl, rfl⟩ := Segment.Cut.exists_of_raw h.flatMap_raw 0 houtside
  have hparts := hcut.stands hstands
  have happart := hcut.staysApart h.staysApart
  exact ⟨left, right, hcut, segmented_of_stands hparts.1 happart.1, segmented_of_stands hparts.2 happart.2⟩

end Stencil
