import Stencil.Proofs.Markup.Reading

/-!
# Steps of a draft

What one segment does to a draft, said case by case. A draft that is read from segments names its
open blocks by their heads, so an end tag that is accepted has no quotes in it; and what is accepted
of the other tags has paired quotes as well.
-/

namespace Stencil

namespace Draft

/-- The drafts that come of a draft when a segment is read that stands at a place. -/
inductive Step (draft : Draft) (place : Nat) : Segment → Draft → Prop where
  | text (content : List Char) :
    Step draft place (.text content) (draft.add (.content (String.ofList content)))
  | comment (body : List Char) :
    Step draft place (.comment body) (draft.add (.comment (String.ofList (commentText body))))
  | escaped {body : List Char} {call : Call} :
    trim body ≠ ['e', 'l', 's', 'e'] →
    Call.ofBody (place + byteSize (TagKind.opener .escaped)) body = .ok call →
    Step draft place (.tag .escaped body) (draft.add (.mustache call true))
  | unescaped {kind : TagKind} {body : List Char} {call : Call} :
    kind = .unescaped ∨ kind = .ampersand →
    Call.ofBody (place + byteSize kind.opener) body = .ok call →
    Step draft place (.tag kind body) (draft.add (.mustache call false))
  | startInverse {kind : TagKind} {body : List Char} {block : OpenBlock} {outer : List OpenBlock} :
    (kind = .escaped ∧ trim body = ['e', 'l', 's', 'e']) ∨ (kind = .inverse ∧ trim body = []) →
    draft.blocks = block :: outer → block.inverse = none →
    Step draft place (.tag kind body) ⟨draft.nodes, { block with inverse := some [] } :: outer⟩
  | openBlock {kind : TagKind} {body : List Char} {call : Call} {path : Path} {inverted : Bool} :
    (kind = .block ∧ inverted = false) ∨ (kind = .inverse ∧ trim body ≠ [] ∧ inverted = true) →
    Call.ofBody (place + byteSize kind.opener) body = .ok call → call.head = .path path →
    Step draft place (.tag kind body)
      ⟨draft.nodes, ⟨call, path.text, inverted, place, [], none⟩ :: draft.blocks⟩
  | closeBlock {body : List Char} {block : OpenBlock} {outer : List OpenBlock} :
    draft.blocks = block :: outer → block.name = String.ofList (trim body) →
    Step draft place (.tag .endBlock body) (add ⟨draft.nodes, outer⟩ block.toNode)
  | inclusion {body : List Char} {node : Node} :
    Node.inclusionOfBody (place + byteSize (TagKind.opener .inclusion)) body = .ok node →
    Step draft place (.tag .inclusion body) (draft.add node)

theorem startInverse_eq_ok_iff {draft next : Draft} {place : Nat} :
    draft.startInverse place = .ok next ↔ ∃ block outer, draft.blocks = block :: outer ∧
      block.inverse = none ∧ next = ⟨draft.nodes, { block with inverse := some [] } :: outer⟩ := by
  rw [startInverse]
  cases hblocks : draft.blocks with
  | nil => simp
  | cons block outer =>
    cases hinverse : block.inverse with
    | some nodes => simp [hinverse]
    | none => simp [hinverse, eq_comm]

theorem openBlock_eq_ok_iff {draft next : Draft} {inverted : Bool} {place bodyPlace : Nat}
    {body : List Char} :
    draft.openBlock inverted place bodyPlace body = .ok next ↔
      ∃ call path, Call.ofBody bodyPlace body = .ok call ∧ call.head = .path path ∧
        next = ⟨draft.nodes, ⟨call, path.text, inverted, place, [], none⟩ :: draft.blocks⟩ := by
  rw [openBlock, bind_eq_ok_iff]
  refine exists_congr fun call => ?_
  cases hhead : call.head with
  | literal literal => simp
  | path path => simp [eq_comm]

theorem closeBlock_eq_ok_iff {draft next : Draft} {place : Nat} {name : String} :
    draft.closeBlock place name = .ok next ↔ ∃ block outer, draft.blocks = block :: outer ∧
      block.name = name ∧ next = add ⟨draft.nodes, outer⟩ block.toNode := by
  rw [closeBlock]
  cases hblocks : draft.blocks with
  | nil => simp
  | cons block outer =>
    by_cases hname : block.name = name
    · simp [hname, eq_comm]
    · simp [hname]

namespace Step

variable {draft next : Draft} {place : Nat} {kind : TagKind} {body : List Char} {inverted : Bool}

theorem of_startInverse
    (hkind : (kind = .escaped ∧ trim body = ['e', 'l', 's', 'e']) ∨ (kind = .inverse ∧ trim body = []))
    (h : draft.startInverse place = .ok next) : draft.Step place (.tag kind body) next := by
  obtain ⟨block, outer, hblocks, hinverse, rfl⟩ := startInverse_eq_ok_iff.1 h
  exact .startInverse hkind hblocks hinverse

theorem of_openBlock
    (hkind : (kind = .block ∧ inverted = false) ∨ (kind = .inverse ∧ trim body ≠ [] ∧ inverted = true))
    (h : draft.openBlock inverted place (place + byteSize kind.opener) body = .ok next) :
    draft.Step place (.tag kind body) next := by
  obtain ⟨call, path, hcall, hhead, rfl⟩ := openBlock_eq_ok_iff.1 h
  exact .openBlock hkind hcall hhead

theorem of_tag (h : draft.tag place kind body = .ok next) : draft.Step place (.tag kind body) next := by
  cases kind with
  | escaped =>
    simp only [tag] at h
    split at h
    · next helse => exact of_startInverse (.inl ⟨rfl, helse⟩) h
    · next helse =>
      obtain ⟨call, hcall, rfl⟩ := map_eq_ok_iff.1 h
      exact .escaped helse hcall
  | unescaped =>
    obtain ⟨call, hcall, rfl⟩ := map_eq_ok_iff.1 h
    exact .unescaped (.inl rfl) hcall
  | ampersand =>
    obtain ⟨call, hcall, rfl⟩ := map_eq_ok_iff.1 h
    exact .unescaped (.inr rfl) hcall
  | block => exact of_openBlock (.inl ⟨rfl, rfl⟩) h
  | inverse =>
    simp only [tag] at h
    split at h
    · next hempty => exact of_startInverse (.inr ⟨rfl, hempty⟩) h
    · next hempty => exact of_openBlock (.inr ⟨rfl, hempty, rfl⟩) h
  | endBlock =>
    obtain ⟨block, outer, hblocks, hname, rfl⟩ := closeBlock_eq_ok_iff.1 h
    exact .closeBlock hblocks hname
  | inclusion =>
    obtain ⟨node, hnode, rfl⟩ := map_eq_ok_iff.1 h
    exact .inclusion hnode

theorem segment_eq {segment : Segment} (h : draft.Step place segment next) :
    draft.segment place segment = .ok next := by
  cases h with
  | text | comment => rfl
  | escaped helse hcall =>
    rw [Draft.segment, tag]
    simp [helse, hcall, Except.map]
  | unescaped hkind hcall =>
    rcases hkind with rfl | rfl
    · exact map_eq_ok_iff.2 ⟨_, hcall, rfl⟩
    · exact map_eq_ok_iff.2 ⟨_, hcall, rfl⟩
  | startInverse hkind hblocks hinverse =>
    have hstart : draft.startInverse place = .ok _ :=
      startInverse_eq_ok_iff.2 ⟨_, _, hblocks, hinverse, rfl⟩
    rcases hkind with ⟨rfl, hbody⟩ | ⟨rfl, hbody⟩
    · simpa [Draft.segment, tag, hbody] using hstart
    · simpa [Draft.segment, tag, hbody] using hstart
  | openBlock hkind hcall hhead =>
    rcases hkind with ⟨rfl, rfl⟩ | ⟨rfl, hbody, rfl⟩
    · exact openBlock_eq_ok_iff.2 ⟨_, _, hcall, hhead, rfl⟩
    · rw [Draft.segment, tag]
      simp only [hbody, if_false]
      exact openBlock_eq_ok_iff.2 ⟨_, _, hcall, hhead, rfl⟩
  | closeBlock hblocks hname => exact closeBlock_eq_ok_iff.2 ⟨_, _, hblocks, hname, rfl⟩
  | inclusion hnode => exact map_eq_ok_iff.2 ⟨_, hnode, rfl⟩

end Step

/-- Reading a segment is a step. -/
theorem segment_eq_ok_iff {draft next : Draft} {place : Nat} {segment : Segment} :
    draft.segment place segment = .ok next ↔ draft.Step place segment next := by
  refine ⟨fun h => ?_, Step.segment_eq⟩
  cases segment with
  | text content =>
    obtain rfl := Except.ok.inj h
    exact .text content
  | comment body =>
    obtain rfl := Except.ok.inj h
    exact .comment body
  | tag kind body => exact .of_tag h

/-! ### Rows of segments -/

theorem segments_cons_eq_ok_iff {draft last : Draft} {place : Nat} {segment : Segment}
    {rest : List Segment} :
    segments place draft (segment :: rest) = .ok last ↔
      ∃ next, draft.Step place segment next ∧
        segments (place + byteSize segment.raw) next rest = .ok last := by
  rw [segments, bind_eq_ok_iff]
  exact exists_congr fun next => and_congr_left' segment_eq_ok_iff

theorem segments_append {draft : Draft} {place : Nat} {left right : List Segment} :
    segments place draft (left ++ right) = (segments place draft left >>= fun next =>
      segments (place + byteSize (left.flatMap Segment.raw)) next right) := by
  induction left generalizing draft place with
  | nil => simp [segments, byteSize, bind, Except.bind]
  | cons segment left ih =>
    rw [List.cons_append, segments, segments, List.flatMap_cons, byteSize_append]
    cases draft.segment place segment with
    | error fault => rfl
    | ok next =>
      rw [← Nat.add_assoc]
      exact ih

/-! ### Adding many nodes -/

/-- Where a draft takes a node at the end of a list, it takes many there. -/
theorem foldl_add_of (place : List Node → Draft)
    (hplace : ∀ before node, (place before).add node = place (before ++ [node]))
    (nodes before : List Node) : nodes.foldl add (place before) = place (before ++ nodes) := by
  induction nodes generalizing before with
  | nil => rw [List.foldl_nil, List.append_nil]
  | cons node nodes ih => rw [List.foldl_cons, hplace, ih, List.append_assoc, List.singleton_append]

theorem foldl_add (nodes before : List Node) :
    nodes.foldl add ⟨before, []⟩ = ⟨before ++ nodes, []⟩ :=
  foldl_add_of (⟨·, []⟩) (fun _ _ => rfl) nodes before

theorem foldl_add_program (nodes : List Node) {outside before : List Node} {call : Call}
    {name : String} {inverted : Bool} {place : Nat} {outer : List OpenBlock} :
    nodes.foldl add ⟨outside, ⟨call, name, inverted, place, before, none⟩ :: outer⟩ =
      ⟨outside, ⟨call, name, inverted, place, before ++ nodes, none⟩ :: outer⟩ :=
  foldl_add_of (fun nodes => ⟨outside, ⟨call, name, inverted, place, nodes, none⟩ :: outer⟩)
    (fun _ _ => rfl) nodes before

theorem foldl_add_inverse (nodes : List Node) {outside program before : List Node} {call : Call}
    {name : String} {inverted : Bool} {place : Nat} {outer : List OpenBlock} :
    nodes.foldl add ⟨outside, ⟨call, name, inverted, place, program, some before⟩ :: outer⟩ =
      ⟨outside, ⟨call, name, inverted, place, program, some (before ++ nodes)⟩ :: outer⟩ :=
  foldl_add_of (fun nodes => ⟨outside, ⟨call, name, inverted, place, program, some nodes⟩ :: outer⟩)
    (fun _ _ => rfl) nodes before

end Draft

/-! ### Names of open blocks -/

/-- An open block that is named by its head as it is written. -/
def OpenBlock.Named (block : OpenBlock) : Prop :=
  ∃ path, block.call.head = .path path ∧ block.name = path.text ∧ Word.IsName path.text.toList

def Draft.Named (draft : Draft) : Prop :=
  ∀ block ∈ draft.blocks, block.Named

theorem OpenBlock.Named.quoteless {block : OpenBlock} (h : block.Named) : '"' ∉ block.name.toList := by
  obtain ⟨path, -, hname, hpath⟩ := h
  rw [hname]
  intro hquote
  exact absurd (hpath.2 '"' hquote) (by decide)

theorem OpenBlock.Named.add {block : OpenBlock} (h : block.Named) (node : Node) :
    (block.add node).Named := by
  rw [OpenBlock.add]
  split
  · exact h
  · exact h

theorem Draft.Named.add {draft : Draft} (h : draft.Named) (node : Node) : (draft.add node).Named := by
  rw [Draft.add]
  split
  · next block outer hblocks =>
    intro other hother
    rcases List.mem_cons.1 hother with rfl | hother
    · exact (h block (by simp [hblocks])).add node
    · exact h other (by simp [hblocks, hother])
  · exact h

/-- A step keeps the names of open blocks, and a tag that it reads has paired quotes. -/
theorem Draft.Step.named {draft next : Draft} {place : Nat} {segment : Segment}
    (h : draft.Step place segment next) (hdraft : draft.Named) :
    next.Named ∧ ∀ kind body, segment = .tag kind body → Paired body := by
  cases h with
  | text | comment => exact ⟨hdraft.add _, by simp⟩
  | escaped _ hcall =>
    refine ⟨hdraft.add _, ?_⟩
    rintro _ _ ⟨⟩
    exact Call.paired_of_ofBody hcall
  | unescaped _ hcall =>
    refine ⟨hdraft.add _, ?_⟩
    rintro _ _ ⟨⟩
    exact Call.paired_of_ofBody hcall
  | @startInverse kind body block outer hkind hblocks _ =>
    constructor
    · intro other hother
      rcases List.mem_cons.1 hother with rfl | hother
      · exact hdraft block (by simp [hblocks])
      · exact hdraft other (by simp [hblocks, hother])
    · rintro _ _ ⟨⟩
      refine paired_of_trim ?_
      rcases hkind with ⟨-, hbody⟩ | ⟨-, hbody⟩
      · rw [hbody]
        decide
      · simp [hbody]
  | @openBlock kind body call path _ _ hcall hhead =>
    constructor
    · intro other hother
      rcases List.mem_cons.1 hother with rfl | hother
      · exact ⟨path, hhead, rfl, Call.isName_of_ofBody hcall hhead⟩
      · exact hdraft other hother
    · rintro _ _ ⟨⟩
      exact Call.paired_of_ofBody hcall
  | @closeBlock body block outer hblocks hname =>
    have houter : Draft.Named ⟨draft.nodes, outer⟩ := by
      intro other hother
      exact hdraft other (by simp [hblocks, hother])
    refine ⟨houter.add _, ?_⟩
    rintro _ _ ⟨⟩
    refine paired_of_trim ?_
    have hquoteless := (hdraft block (by simp [hblocks])).quoteless
    rwa [hname, String.toList_ofList] at hquoteless
  | inclusion hnode =>
    refine ⟨hdraft.add _, ?_⟩
    rintro _ _ ⟨⟩
    exact Node.paired_of_inclusionOfBody hnode

theorem Draft.paired_of_segments {draft last : Draft} {place : Nat} {row : List Segment}
    (hdraft : draft.Named) (h : Draft.segments place draft row = .ok last) :
    ∀ kind body, .tag kind body ∈ row → Paired body := by
  induction row generalizing draft place with
  | nil => simp
  | cons segment rest ih =>
    obtain ⟨next, hnext, h⟩ := Draft.segments_cons_eq_ok_iff.1 h
    obtain ⟨hnamed, hpaired⟩ := hnext.named hdraft
    intro kind body hmem
    rcases List.mem_cons.1 hmem with rfl | hmem
    · exact hpaired kind body rfl
    · exact ih hnamed h kind body hmem

/-! ### Sources that parse -/

/-- A source parses exactly if it falls into segments that can be read and leave no block open. -/
theorem parseText_eq_ok_iff {source : List Char} {nodes : List Node} :
    parseText source = .ok nodes ↔
      ∃ row, Segmented source row ∧ Draft.segments 0 {} row = .ok ⟨nodes, []⟩ := by
  rw [parseText, bind_eq_ok_iff]
  refine exists_congr fun row => and_congr segments_all_eq_ok_iff ?_
  rw [bind_eq_ok_iff]
  constructor
  · intro hgiven
    obtain ⟨⟨found, blocks⟩, hdraft, h⟩ := hgiven
    rw [Draft.finish] at h
    cases blocks with
    | nil =>
      obtain rfl := Except.ok.inj h
      exact hdraft
    | cons block outer => simp at h
  · intro h
    exact ⟨_, h, rfl⟩

theorem parse_eq_ok_iff {source : String} {nodes : List Node} :
    parse source = .ok nodes ↔ parseText source.toList = .ok nodes := by
  rw [parse]
  cases parseText source.toList <;> simp [Except.mapError]

theorem Draft.stands_of_segments {source : List Char} {row : List Segment} {last : Draft}
    (hrow : Segmented source row) (h : Draft.segments 0 {} row = .ok last) :
    ∀ segment ∈ row, segment.Stands :=
  hrow.stands (Draft.paired_of_segments (by simp [Draft.Named]) h)

end Stencil
