import Stencil.Proofs.Checked.Parsing
import Stencil.Proofs.Markup.Heads
import Stencil.Proofs.Markup.Printable

/-!
# Levels of a template

The nodes of a template outside all blocks are one level, and each part of a block is another, at
any depth. The nodes of a level are made by a stretch of the segments of the template, so what
derivations show of the outermost level they show of every level. What the parser promises is about
single levels: what the calls and paths of its nodes look like, that no two texts are neighbours,
and that calls stand in the order of the template.
-/

namespace Stencil

/-! ### Levels -/

def Node.parts : Node → List (List Node)
  | .block _ program none => [program]
  | .block _ program (some inverse) => [program, inverse]
  | _ => []

/-- The level of the template itself, or that of a part of a block, at any depth. -/
inductive Node.Level (whole : List Node) : List Node → Prop where
  | whole : Level whole whole
  | part {row part : List Node} {node : Node} : Level whole row → node ∈ row → part ∈ node.parts →
    Level whole part

theorem Node.within_of_mem_parts {node inner : Node} {part : List Node} (hpart : part ∈ node.parts)
    (hinner : inner ∈ part) : inner.Within node := by
  cases node with
  | block call program inverse =>
    cases inverse with
    | none =>
      obtain rfl := List.mem_singleton.1 hpart
      exact .program hinner .self
    | some inverse =>
      rcases List.mem_pair.1 hpart with rfl | rfl
      · exact .program hinner .self
      · exact .inverse hinner .self
  | _ => cases hpart

theorem Node.mem_parts_ofParts {call : Call} {inverted : Bool} {first part : List Node} {second : Option (List Node)}
    (h : part ∈ (Node.ofParts call inverted first second).parts) : part = first ∨ part ∈ second ∨ part = [] := by
  cases inverted with
  | false =>
    cases second with
    | none => exact .inl (List.mem_singleton.1 h)
    | some second =>
      rcases List.mem_pair.1 h with hfirst | hsecond
      · exact .inl hfirst
      · exact .inr (.inl (congrArg some hsecond.symm))
  | true =>
    rcases List.mem_pair.1 h with hsecond | hfirst
    · cases second with
      | none => exact .inr (.inr hsecond)
      | some second => exact .inr (.inl (congrArg some hsecond.symm))
    · exact .inl hfirst

theorem Node.printable_of_mem {nodes : List Node} {node : Node} (h : Node.allPrintable nodes) (hnode : node ∈ nodes) :
    node.Printable := by
  induction nodes with
  | nil => cases hnode
  | cons first rest ih =>
    rw [Node.allPrintable] at h
    rcases List.mem_cons.1 hnode with rfl | hnode
    · exact h.1
    · exact ih h.2.2 hnode

theorem Node.Printable.part {node : Node} {part : List Node} (h : node.Printable) (hpart : part ∈ node.parts) :
    Node.allPrintable part := by
  cases node with
  | block call program inverse =>
    cases inverse with
    | none =>
      obtain rfl := List.mem_singleton.1 hpart
      rw [Node.Printable] at h
      exact h.2.2.1
    | some inverse =>
      rw [Node.Printable] at h
      rcases List.mem_pair.1 hpart with rfl | rfl
      · exact h.2.2.1.1
      · exact h.2.2.2.1
  | _ => cases hpart

theorem Node.isChain_staysApart {nodes : List Node} (h : Node.allPrintable nodes) :
    nodes.IsChain Node.StaysApart := by
  induction nodes with
  | nil => exact .nil
  | cons first rest ih =>
    rw [Node.allPrintable] at h
    exact List.isChain_cons.2 ⟨h.2.1, ih h.2.2⟩

theorem Segment.Becomes.parts_eq_nil {place : Nat} {segment : Segment} {node : Node}
    (h : segment.Becomes place node) : node.parts = [] := by
  cases h with
  | inclusion hnode =>
    obtain ⟨_, -, ⟨-, rfl⟩ | ⟨_, _, -, -, -, rfl⟩⟩ := Node.inclusionOfBody_eq_ok_iff.1 hnode
    · rfl
    · rfl
  | _ => rfl

namespace Node.Level

variable {whole row : List Node} (h : Level whole row)

include h

theorem among {node : Node} (hnode : node ∈ row) : node.Among whole := by
  induction h generalizing node with
  | whole => exact ⟨node, hnode, .self⟩
  | part _ hblock hpart ih =>
    obtain ⟨other, hother, hwithin⟩ := ih hblock
    exact ⟨other, hother, (within_of_mem_parts hpart hnode).trans hwithin⟩

theorem allPrintable (hwhole : Node.allPrintable whole) : Node.allPrintable row := by
  induction h with
  | whole => exact hwhole
  | part _ hblock hpart ih => exact (Node.printable_of_mem ih hblock).part hpart

end Node.Level

/-! ### Derivations of levels -/

namespace Derivation

variable {place : Nat} {row : List Segment} {nodes : List Node}

/-- The nodes of a part of a block are made by a stretch of the segments. -/
theorem exists_part (h : Derivation place row nodes) {node : Node} {part : List Node} (hnode : node ∈ nodes)
    (hpart : part ∈ node.parts) :
    ∃ left inside right, row = left ++ (inside ++ right) ∧ Derivation (place + rowSize left) inside part := by
  induction h generalizing node with
  | nil place => cases hnode
  | @single place segment _ rest _ hsegment _ ih =>
    rcases List.mem_cons.1 hnode with rfl | hnode
    · rw [hsegment.parts_eq_nil] at hpart
      cases hpart
    · obtain ⟨left, inside, right, rfl, hinside⟩ := ih hnode hpart
      refine ⟨segment :: left, inside, right, rfl, ?_⟩
      rwa [rowSize_cons, ← Nat.add_assoc]
  | @block place opening closing _ _ _ inside rest program _ _ hinside _ _ _ ih =>
    rcases List.mem_cons.1 hnode with rfl | hnode
    · rcases Node.mem_parts_ofParts hpart with rfl | hpart | rfl
      · exact ⟨[opening], inside, closing :: rest, rfl, by simpa using hinside⟩
      · cases hpart
      · exact ⟨[], [], _, rfl, .nil _⟩
    · obtain ⟨left, found, right, rfl, hfound⟩ := ih hnode hpart
      refine ⟨opening :: (inside ++ closing :: left), found, right, by simp, ?_⟩
      convert hfound using 1
      simp only [rowSize_cons, rowSize_append, rowSize_nil]
      omega
  | @dividedBlock place opening marker closing _ _ _ inside behind rest _ _ _ _ hinside _ hbehind _ _ _ _ ih =>
    rcases List.mem_cons.1 hnode with rfl | hnode
    · rcases Node.mem_parts_ofParts hpart with rfl | hpart | rfl
      · exact ⟨[opening], inside, marker :: (behind ++ closing :: rest), rfl, by simpa using hinside⟩
      · obtain rfl := Option.some.inj hpart
        exact ⟨opening :: (inside ++ [marker]), behind, closing :: rest, by simp, hbehind⟩
      · exact ⟨[], [], _, rfl, .nil _⟩
    · obtain ⟨left, found, right, rfl, hfound⟩ := ih hnode hpart
      refine ⟨opening :: (inside ++ marker :: (behind ++ closing :: left)), found, right, by simp, ?_⟩
      convert hfound using 1
      simp only [rowSize_cons, rowSize_append, rowSize_nil]
      omega

/-- The first node is made by the front of the row, the others by what is behind it. -/
theorem exists_split {node : Node} (h : Derivation place row (node :: nodes)) :
    ∃ front behind, row = front ++ behind ∧ Derivation place front [node] ∧
      Derivation (place + rowSize front) behind nodes := by
  cases h with
  | @single _ segment _ rest _ hsegment hrest =>
    exact ⟨[segment], rest, rfl, .single hsegment (.nil _), by simpa using hrest⟩
  | @block _ opening closing _ _ _ inside rest _ _ hopening hinside hclosing hrest =>
    exact ⟨opening :: (inside ++ [closing]), rest, by simp, .block hopening hinside hclosing (.nil _), hrest⟩
  | @dividedBlock _ opening marker closing _ _ _ inside behind rest _ _ _ hopening hinside hmarker hbehind hclosing
      hrest =>
    exact ⟨opening :: (inside ++ marker :: (behind ++ [closing])), rest, by simp,
      .dividedBlock hopening hinside hmarker hbehind hclosing (.nil _), hrest⟩

theorem span_between (h : Derivation place row nodes) {node inner : Node} (hnode : node ∈ nodes)
    (hinner : inner.Within node) {call : Call} (hcall : inner.call? = some call) :
    place ≤ call.span.start ∧ call.span.stop < place + rowSize row := by
  obtain ⟨left, segment, right, rfl, hmakes⟩ := h.exists_makes hnode hinner
  obtain ⟨kind, body, rfl, hspan⟩ := hmakes.exists_span hcall
  have hcloser : 0 < byteSize kind.closer := byteSize_pos (by cases kind <;> simp [TagKind.closer])
  rw [hspan]
  simp only [rowSize_append, rowSize_cons, Segment.raw, byteSize_append]
  omega

end Derivation

theorem Node.Level.exists_derivation {whole row : List Node} {segments : List Segment} (h : Node.Level whole row)
    (hwhole : Derivation 0 segments whole) : ∃ left inside right, segments = left ++ (inside ++ right) ∧
      Derivation (rowSize left) inside row := by
  induction h with
  | whole => exact ⟨[], segments, [], by simp, hwhole⟩
  | part _ hblock hpart ih =>
    obtain ⟨left, inside, right, rfl, hrow⟩ := ih
    obtain ⟨before, found, behind, rfl, hfound⟩ := hrow.exists_part hblock hpart
    exact ⟨left ++ before, found, behind ++ right, by simp, by rwa [rowSize_append]⟩

/-- The calls of a node, those inside included, stand before those of another. -/
def Node.CallsBefore (left right : Node) : Prop :=
  ∀ first last : Node, first.Within left → last.Within right → ∀ call ∈ first.call?, ∀ call' ∈ last.call?,
    call.span.stop < call'.span.start

theorem Derivation.pairwise_callsBefore {place : Nat} {row : List Segment} {nodes : List Node}
    (h : Derivation place row nodes) : nodes.Pairwise Node.CallsBefore := by
  induction nodes generalizing place row with
  | nil => exact .nil
  | cons node nodes ih =>
    obtain ⟨front, behind, rfl, hfront, hbehind⟩ := h.exists_split
    refine List.pairwise_cons.2 ⟨?_, ih hbehind⟩
    intro other hother first last hfirst hlast call hcall call' hcall'
    exact (hfront.span_between (List.mem_singleton_self node) hfirst hcall).2.trans_le
      (hbehind.span_between hother hlast hcall').1

/-! ### Paths -/

/-- A path as it can be looked up: its segments are names, and a single one without any scope is the
whole path as it is written. -/
structure Path.Proper (path : Path) : Prop where
  segments : ∀ segment ∈ path.segments, segment ≠ "" ∧ segment ≠ "this" ∧
    '/' ∉ segment.toList ∧ '.' ∉ segment.toList
  simple : path.isSimple = true → path.segments = [path.text]

theorem Path.Names.isName {text segment : List Char} {segments : List (List Char)} (h : Names text segments)
    (hsegment : segment ∈ segments) :
    segment ≠ [] ∧ segment ≠ ['t', 'h', 'i', 's'] ∧ '/' ∉ segment ∧ '.' ∉ segment := by
  have hplain := h.joined.not_separates segment hsegment
  obtain ⟨hempty, hthis⟩ := h.proper segment hsegment
  refine ⟨hempty, hthis, fun hmem => ?_, fun hmem => ?_⟩
  · exact absurd (hplain _ hmem) (by decide)
  · exact absurd (hplain _ hmem) (by decide)

theorem Path.Spelled.isName {text segment : List Char} {depth : Nat} {isThis : Bool} {segments : List (List Char)}
    (h : Spelled text depth isThis segments) (hsegment : segment ∈ segments) :
    segment ≠ [] ∧ segment ≠ ['t', 'h', 'i', 's'] ∧ '/' ∉ segment ∧ '.' ∉ segment := by
  cases h with
  | steps | lastStep | mark => cases hsegment
  | names _ h | markedNames _ _ h => exact h.isName hsegment

theorem Path.proper_of_ofText {text : List Char} {path : Path} (h : Path.ofText? text = some path) : path.Proper := by
  obtain ⟨-, segments, hspelled, hsegments⟩ := Path.ofText_eq_some_iff.1 h
  refine ⟨fun segment hsegment => ?_, Path.segments_of_isSimple h⟩
  rw [hsegments] at hsegment
  obtain ⟨characters, hcharacters, rfl⟩ := List.mem_map.1 hsegment
  obtain ⟨hempty, hthis, hseparators⟩ := hspelled.isName hcharacters
  rw [String.toList_ofList]
  refine ⟨fun heq => hempty ?_, fun heq => hthis ?_, hseparators⟩
  · simpa using congrArg String.toList heq
  · simpa using congrArg String.toList heq

/-! ### Expressions -/

/-- What a node mentions, apart from the nodes inside. -/
def Node.exprs : Node → List Expr
  | .mustache call _ => call.exprs
  | .block call _ _ => call.exprs
  | .inclusion _ context => context.toList
  | .content _ => []
  | .comment _ => []

theorem Segment.Makes.exists_word {place : Nat} {segment : Segment} {node : Node} (h : segment.Makes place node)
    {expr : Expr} (hexpr : expr ∈ node.exprs) : ∃ word, Expr.ofWord word = .ok expr := by
  match node with
  | .content _ | .comment _ => nomatch hexpr
  | .mustache call _ | .block call _ _ =>
    obtain ⟨_, _, -, hbody⟩ := h.exists_body rfl
    exact Call.exists_word_of_mem_exprs hbody hexpr
  | .inclusion name context =>
    generalize hnode : Node.inclusion name context = node at h
    cases h with
    | node hbecomes =>
      subst hnode
      cases hbecomes with
      | inclusion hbody =>
        obtain ⟨_, -, ⟨-, hnode⟩ | ⟨second, _, -, -, hword, hnode⟩⟩ := Node.inclusionOfBody_eq_ok_iff.1 hbody
        · cases hnode
          nomatch hexpr
        · cases hnode
          obtain rfl := List.mem_singleton.1 hexpr
          exact ⟨second, hword⟩
    | @block _ _ inverted => cases inverted <;> cases hnode

/-! ### What is promised of a level -/

def Node.isContent : Node → Bool
  | .content _ => true
  | _ => false

/-- What the parser promises of the nodes of one level of a template. -/
structure Node.Orderly (source : String) (row : List Node) : Prop where
  blocks : ∀ call program inverse, .block call program inverse ∈ row → ∃ path, call.head = .path path
  literals : ∀ node ∈ row, ∀ call ∈ node.call?, call.head.isLiteral = true → call.params = [] ∧ call.hash = []
  paths : ∀ node ∈ row, ∀ path, .path path ∈ node.exprs → path.Proper
  contents : ∀ text, .content text ∈ row → text ≠ "" ∧ ¬['{', '{'] <:+: text.toList
  apart : row.IsChain fun left right => ¬(left.isContent = true ∧ right.isContent = true)
  spans : ∀ node ∈ row, ∀ call ∈ node.call?, call.span.Bounds source.toList
  order : row.Pairwise Node.CallsBefore

theorem Call.alone_of_isLiteral {place : Nat} {body : List Char} {call : Call}
    (h : Call.ofBody place body = .ok call) (hliteral : call.head.isLiteral = true) :
    call.params = [] ∧ call.hash = [] := by
  obtain ⟨_, _, _, -, -, -, -, hfits⟩ := Call.ofBody_eq_ok_iff.1 h
  simpa [hliteral, Call.hasArguments] using hfits

theorem Node.StaysApart.not_contents {left right : Node} (h : left.StaysApart right) :
    ¬(left.isContent = true ∧ right.isContent = true) := by
  rintro ⟨hleft, hright⟩
  cases left <;> cases hleft
  cases right <;> cases hright
  exact h

/-- Every level of a template that parses is orderly. -/
theorem Node.Level.orderly {source : String} {whole row : List Node} (h : Node.Level whole row)
    (hparse : parse source = .ok whole) : Node.Orderly source row := by
  obtain ⟨segments, -, hdraft⟩ := parseText_eq_ok_iff.1 (parse_eq_ok_iff.1 hparse)
  have hwhole := Draft.segments_eq_ok_iff_derivation.1 hdraft
  have hprintable := h.allPrintable (allPrintable_of_parseText (parse_eq_ok_iff.1 hparse))
  obtain ⟨_, _, _, -, hrow⟩ := h.exists_derivation hwhole
  exact
    { blocks := by
        intro call program inverse hblock
        have hhead : call.head.isLiteral = false := by
          have hnode := Node.printable_of_mem hprintable hblock
          cases inverse with
          | none =>
            rw [Node.Printable] at hnode
            exact hnode.2.1
          | some inverse =>
            rw [Node.Printable] at hnode
            exact hnode.2.1
        cases hcase : call.head with
        | path path => exact ⟨path, rfl⟩
        | literal =>
          rw [hcase] at hhead
          cases hhead
      literals := by
        intro node hnode call hcall hliteral
        obtain ⟨_, _, hbody⟩ := exists_ofBody_of_parse hparse (h.among hnode) hcall
        exact Call.alone_of_isLiteral hbody hliteral
      paths := by
        intro node hnode path hpath
        obtain ⟨_, _, _, -, hmakes⟩ := hrow.exists_makes hnode .self
        obtain ⟨_, hword⟩ := hmakes.exists_word hpath
        obtain ⟨_, htext⟩ := Expr.exists_text_of_ofWord hword
        exact Path.proper_of_ofText htext
      contents := by
        intro text htext
        have hstands := Node.printable_of_mem hprintable htext
        rw [Node.Printable] at hstands
        refine ⟨fun hempty => hstands.1 ?_, braceFree_iff.1 hstands.2⟩
        rw [hempty]
        rfl
      apart := (Node.isChain_staysApart hprintable).imp fun _ _ => Node.StaysApart.not_contents
      spans := by
        intro node hnode call hcall
        obtain ⟨other, hother, hwithin⟩ := h.among hnode
        exact call_bounds hparse hother hwithin hcall
      order := hrow.pairwise_callsBefore }

end Stencil
