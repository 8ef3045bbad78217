import Stencil.Proofs.Markup.Drafting

/-!
# Derivations

Which rows of segments make which nodes, said without a draft. A segment is a node by itself, or it
opens a block, divides one or closes one. A block is its opening tag, the nodes inside, perhaps a
marker with the nodes behind it, and a closing tag that repeats the name.

Reading and deriving are the same. One way is by induction on the derivation; the other way needs
what a draft has read so far, which is a derivation for each open block and one for what stands
outside.
-/

namespace Stencil

def rowSize (row : List Segment) : Nat :=
  byteSize (row.flatMap Segment.raw)

@[simp] theorem rowSize_nil : rowSize [] = 0 := rfl

@[simp] theorem rowSize_cons (segment : Segment) (rest : List Segment) :
    rowSize (segment :: rest) = byteSize segment.raw + rowSize rest := by
  rw [rowSize, List.flatMap_cons, byteSize_append, rowSize]

@[simp] theorem rowSize_append (left right : List Segment) :
    rowSize (left ++ right) = rowSize left + rowSize right := by
  rw [rowSize, List.flatMap_append, byteSize_append, rowSize, rowSize]

/-! ### What a segment is -/

namespace Segment

/-- The segment that stands at a place is a node by itself. -/
inductive Becomes (place : Nat) : Segment → Node → Prop where
  | text (content : List Char) : Becomes place (.text content) (.content (String.ofList content))
  | comment (body : List Char) :
    Becomes place (.comment body) (.comment (String.ofList (Draft.commentText body)))
  | escaped {body : List Char} {call : Call} : trim body ≠ ['e', 'l', 's', 'e'] →
    Call.ofBody (place + byteSize (TagKind.opener .escaped)) body = .ok call →
    Becomes place (.tag .escaped body) (.mustache call true)
  | unescaped {kind : TagKind} {body : List Char} {call : Call} :
    kind = .unescaped ∨ kind = .ampersand →
    Call.ofBody (place + byteSize kind.opener) body = .ok call →
    Becomes place (.tag kind body) (.mustache call false)
  | inclusion {body : List Char} {node : Node} :
    Node.inclusionOfBody (place + byteSize (TagKind.opener .inclusion)) body = .ok node →
    Becomes place (.tag .inclusion body) node

/-- The tag that stands at a place opens a block with a call. The block has the name that the head
is written as, and may be inverted. -/
inductive Opens (place : Nat) : Segment → Call → String → Bool → Prop where
  | plain {body : List Char} {call : Call} {path : Path} :
    Call.ofBody (place + byteSize (TagKind.opener .block)) body = .ok call → call.head = .path path →
    Opens place (.tag .block body) call path.text false
  | inverted {body : List Char} {call : Call} {path : Path} : trim body ≠ [] →
    Call.ofBody (place + byteSize (TagKind.opener .inverse)) body = .ok call → call.head = .path path →
    Opens place (.tag .inverse body) call path.text true

/-- The tag is an inverse marker, which is a lone caret or the word for it. -/
inductive Divides : Segment → Prop where
  | caret {body : List Char} : trim body = [] → Divides (.tag .inverse body)
  | word {body : List Char} : trim body = ['e', 'l', 's', 'e'] → Divides (.tag .escaped body)

inductive Closes : Segment → String → Prop where
  | tag (body : List Char) : Closes (.tag .endBlock body) (String.ofList (trim body))

end Segment

/-- The node of a block from its two parts as they are written; there is a second one if the block
has a marker. An inverted block has its parts the other way round. -/
def Node.ofParts (call : Call) : Bool → List Node → Option (List Node) → Node
  | false, first, second => .block call first second
  | true, first, second => .block call (second.getD []) (some first)

theorem OpenBlock.toNode_eq (block : OpenBlock) :
    block.toNode = Node.ofParts block.call block.inverted block.program block.inverse := by
  obtain ⟨call, name, inverted, place, program, inverse⟩ := block
  cases inverted <;> rfl

/-! ### Steps by what a segment is -/

namespace Draft.Step

variable {draft next : Draft} {place : Nat} {segment : Segment}

theorem of_becomes {node : Node} (h : segment.Becomes place node) : draft.Step place segment (draft.add node) := by
  cases h with
  | text content => exact .text content
  | comment body => exact .comment body
  | escaped helse hcall => exact .escaped helse hcall
  | unescaped hkind hcall => exact .unescaped hkind hcall
  | inclusion hnode => exact .inclusion hnode

theorem of_opens {call : Call} {name : String} {inverted : Bool} (h : segment.Opens place call name inverted) :
    draft.Step place segment
      ⟨draft.nodes, ⟨call, name, inverted, place, [], none⟩ :: draft.blocks⟩ := by
  cases h with
  | plain hcall hhead => exact .openBlock (.inl ⟨rfl, rfl⟩) hcall hhead
  | inverted hbody hcall hhead => exact .openBlock (.inr ⟨rfl, hbody, rfl⟩) hcall hhead

theorem of_divides (h : segment.Divides) {block : OpenBlock} {outer : List OpenBlock}
    (hblocks : draft.blocks = block :: outer) (hinverse : block.inverse = none) :
    draft.Step place segment ⟨draft.nodes, { block with inverse := some [] } :: outer⟩ := by
  cases h with
  | caret hbody => exact .startInverse (.inr ⟨rfl, hbody⟩) hblocks hinverse
  | word hbody => exact .startInverse (.inl ⟨rfl, hbody⟩) hblocks hinverse

theorem of_closes {block : OpenBlock} {outer : List OpenBlock} (h : segment.Closes block.name)
    (hblocks : draft.blocks = block :: outer) :
    draft.Step place segment (add ⟨draft.nodes, outer⟩ block.toNode) := by
  generalize hname : block.name = name at h
  cases h with
  | tag body => exact .closeBlock hblocks hname

/-- A step adds a node, opens a block, divides the innermost one or closes it. -/
theorem cases_role (h : draft.Step place segment next) :
    (∃ node, segment.Becomes place node ∧ next = draft.add node) ∨
    (∃ call name inverted, segment.Opens place call name inverted ∧
      next = ⟨draft.nodes, ⟨call, name, inverted, place, [], none⟩ :: draft.blocks⟩) ∨
    ∃ block outer, draft.blocks = block :: outer ∧
      ((segment.Divides ∧ block.inverse = none ∧
        next = ⟨draft.nodes, { block with inverse := some [] } :: outer⟩) ∨
      (segment.Closes block.name ∧ next = add ⟨draft.nodes, outer⟩ block.toNode)) := by
  cases h with
  | text content => exact .inl ⟨_, .text content, rfl⟩
  | comment body => exact .inl ⟨_, .comment body, rfl⟩
  | escaped helse hcall => exact .inl ⟨_, .escaped helse hcall, rfl⟩
  | unescaped hkind hcall => exact .inl ⟨_, .unescaped hkind hcall, rfl⟩
  | inclusion hnode => exact .inl ⟨_, .inclusion hnode, rfl⟩
  | openBlock hkind hcall hhead =>
    refine .inr (.inl ⟨_, _, _, ?_, rfl⟩)
    rcases hkind with ⟨rfl, rfl⟩ | ⟨rfl, hbody, rfl⟩
    · exact .plain hcall hhead
    · exact .inverted hbody hcall hhead
  | startInverse hkind hblocks hinverse =>
    refine .inr (.inr ⟨_, _, hblocks, .inl ⟨?_, hinverse, rfl⟩⟩)
    rcases hkind with ⟨rfl, hbody⟩ | ⟨rfl, hbody⟩
    · exact .word hbody
    · exact .caret hbody
  | closeBlock hblocks hname => exact .inr (.inr ⟨_, _, hblocks, .inr ⟨hname ▸ .tag _, rfl⟩⟩)

end Draft.Step

/-! ### Derivations -/

/-- The nodes that a row of segments makes when it starts at a place. -/
inductive Derivation : Nat → List Segment → List Node → Prop where
  | nil (place : Nat) : Derivation place [] []
  | single {place : Nat} {segment : Segment} {node : Node} {rest : List Segment} {nodes : List Node} :
    segment.Becomes place node →
    Derivation (place + byteSize segment.raw) rest nodes →
    Derivation place (segment :: rest) (node :: nodes)
  | block {place : Nat} {opening closing : Segment} {call : Call} {name : String} {inverted : Bool}
      {inside rest : List Segment} {program nodes : List Node} :
    opening.Opens place call name inverted →
    Derivation (place + byteSize opening.raw) inside program →
    closing.Closes name →
    Derivation (place + rowSize (opening :: (inside ++ [closing]))) rest nodes →
    Derivation place (opening :: (inside ++ closing :: rest))
      (Node.ofParts call inverted program none :: nodes)
  | dividedBlock {place : Nat} {opening marker closing : Segment} {call : Call} {name : String}
      {inverted : Bool} {inside behind rest : List Segment} {program inverse nodes : List Node} :
    opening.Opens place call name inverted →
    Derivation (place + byteSize opening.raw) inside program →
    marker.Divides →
    Derivation (place + rowSize (opening :: (inside ++ [marker]))) behind inverse →
    closing.Closes name →
    Derivation (place + rowSize (opening :: (inside ++ marker :: (behind ++ [closing])))) rest nodes →
    Derivation place (opening :: (inside ++ marker :: (behind ++ closing :: rest)))
      (Node.ofParts call inverted program (some inverse) :: nodes)

namespace Derivation

theorem append {place : Nat} {left right : List Segment} {nodes more : List Node}
    (hleft : Derivation place left nodes) (hright : Derivation (place + rowSize left) right more) :
    Derivation place (left ++ right) (nodes ++ more) := by
  induction hleft with
  | nil place => exact hright
  | single hsegment _ ih =>
    refine .single hsegment (ih ?_)
    rwa [rowSize_cons, ← Nat.add_assoc] at hright
  | block hopening hinside hclosing _ _ ih =>
    rw [List.cons_append, List.append_assoc, List.cons_append]
    refine .block hopening hinside hclosing (ih ?_)
    convert hright using 1
    simp only [rowSize_cons, rowSize_append, rowSize_nil]
    omega
  | dividedBlock hopening hinside hmarker hbehind hclosing _ _ _ ih =>
    rw [List.cons_append, List.append_assoc, List.cons_append, List.append_assoc, List.cons_append]
    refine .dividedBlock hopening hinside hmarker hbehind hclosing (ih ?_)
    convert hright using 1
    simp only [rowSize_cons, rowSize_append, rowSize_nil]
    omega

end Derivation

theorem Draft.segments_append_of {draft next : Draft} {place : Nat} {left right : List Segment}
    (h : Draft.segments place draft left = .ok next) :
    Draft.segments place draft (left ++ right) = Draft.segments (place + rowSize left) next right := by
  rw [Draft.segments_append, h]
  rfl

/-- What a row makes is what a draft takes when the row is read. -/
theorem Derivation.segments_eq {place : Nat} {row : List Segment} {nodes : List Node}
    (h : Derivation place row nodes) (draft : Draft) :
    Draft.segments place draft row = .ok (nodes.foldl Draft.add draft) := by
  induction h generalizing draft with
  | nil place => rfl
  | single hsegment _ ih => exact Draft.segments_cons_eq_ok_iff.2 ⟨_, .of_becomes hsegment, ih _⟩
  | @block place opening closing call name inverted inside rest program nodes hopening _ hclosing _
      ihInside ihRest =>
    have hend : place + rowSize (opening :: (inside ++ [closing])) =
        place + byteSize opening.raw + rowSize inside + byteSize closing.raw := by
      simp only [rowSize_cons, rowSize_append, rowSize_nil]
      omega
    rw [hend] at ihRest
    refine Draft.segments_cons_eq_ok_iff.2 ⟨_, .of_opens hopening, ?_⟩
    rw [Draft.segments_append_of (ihInside _), Draft.foldl_add_program]
    refine Draft.segments_cons_eq_ok_iff.2 ⟨_, .of_closes hclosing rfl, ?_⟩
    rw [List.foldl_cons, ihRest, OpenBlock.toNode_eq]
    rfl
  | @dividedBlock place opening marker closing call name inverted inside behind rest program inverse nodes
      hopening _ hmarker _ hclosing _ ihInside ihBehind ihRest =>
    have hmiddle : place + rowSize (opening :: (inside ++ [marker])) =
        place + byteSize opening.raw + rowSize inside + byteSize marker.raw := by
      simp only [rowSize_cons, rowSize_append, rowSize_nil]
      omega
    have hend : place + rowSize (opening :: (inside ++ marker :: (behind ++ [closing]))) =
        place + byteSize opening.raw + rowSize inside + byteSize marker.raw + rowSize behind +
          byteSize closing.raw := by
      simp only [rowSize_cons, rowSize_append, rowSize_nil]
      omega
    rw [hmiddle] at ihBehind
    rw [hend] at ihRest
    refine Draft.segments_cons_eq_ok_iff.2 ⟨_, .of_opens hopening, ?_⟩
    rw [Draft.segments_append_of (ihInside _), Draft.foldl_add_program]
    refine Draft.segments_cons_eq_ok_iff.2 ⟨_, .of_divides hmarker rfl rfl, ?_⟩
    rw [Draft.segments_append_of (ihBehind _), Draft.foldl_add_inverse]
    refine Draft.segments_cons_eq_ok_iff.2 ⟨_, .of_closes hclosing rfl, ?_⟩
    rw [List.foldl_cons, ihRest, OpenBlock.toNode_eq]
    rfl

/-! ### What a draft has read -/

/-- The draft holds what a row of segments makes that is read from the start of a template:
derivations for what stands outside and for both parts of each open block. -/
inductive Draft.Holds : List Segment → Draft → Prop where
  | outside {row : List Segment} {nodes : List Node} : Derivation 0 row nodes → Holds row ⟨nodes, []⟩
  | program {row inside : List Segment} {opening : Segment} {call : Call} {name : String} {inverted : Bool}
      {nodes program : List Node} {outer : List OpenBlock} :
    Holds row ⟨nodes, outer⟩ →
    opening.Opens (rowSize row) call name inverted →
    Derivation (rowSize (row ++ [opening])) inside program →
    Holds (row ++ opening :: inside) ⟨nodes, ⟨call, name, inverted, rowSize row, program, none⟩ :: outer⟩
  | inverse {row inside behind : List Segment} {opening marker : Segment} {call : Call} {name : String}
      {inverted : Bool} {nodes program inverse : List Node} {outer : List OpenBlock} :
    Holds row ⟨nodes, outer⟩ →
    opening.Opens (rowSize row) call name inverted →
    Derivation (rowSize (row ++ [opening])) inside program →
    marker.Divides →
    Derivation (rowSize (row ++ opening :: (inside ++ [marker]))) behind inverse →
    Holds (row ++ opening :: (inside ++ marker :: behind))
      ⟨nodes, ⟨call, name, inverted, rowSize row, program, some inverse⟩ :: outer⟩

namespace Draft.Holds

variable {row : List Segment} {draft next : Draft}

theorem add {more : List Segment} {node : Node} (h : Holds row draft)
    (hmore : Derivation (rowSize row) more [node]) : Holds (row ++ more) (draft.add node) := by
  cases h with
  | outside hrow =>
    refine .outside (hrow.append ?_)
    rwa [Nat.zero_add]
  | @program row inside opening _ _ _ _ _ _ houter hopening hinside =>
    rw [List.append_assoc, List.cons_append]
    refine .program houter hopening (hinside.append ?_)
    convert hmore using 1
    simp only [rowSize_cons, rowSize_append, rowSize_nil]
    omega
  | @inverse row inside behind opening marker _ _ _ _ _ _ _ houter hopening hinside hmarker hbehind =>
    rw [List.append_assoc, List.cons_append, List.append_assoc, List.cons_append]
    refine .inverse houter hopening hinside hmarker (hbehind.append ?_)
    convert hmore using 1
    simp only [rowSize_cons, rowSize_append, rowSize_nil]
    omega

theorem step {segment : Segment} (h : Holds row draft) (hstep : draft.Step (rowSize row) segment next) :
    Holds (row ++ [segment]) next := by
  rcases hstep.cases_role with ⟨node, hnode, rfl⟩ | ⟨call, name, inverted, hopening, rfl⟩ |
    ⟨block, outer, hblocks, hinner⟩
  · exact h.add (.single hnode (.nil _))
  · exact .program h hopening (.nil _)
  · cases h with
    | outside => cases hblocks
    | @program row inside opening call name inverted nodes program outer houter hopening hinside =>
      obtain ⟨rfl, rfl⟩ := List.cons.inj hblocks
      rcases hinner with ⟨hmarker, -, rfl⟩ | ⟨hclosing, rfl⟩
      · rw [List.append_assoc, List.cons_append]
        exact .inverse houter hopening hinside hmarker (.nil _)
      · rw [List.append_assoc, OpenBlock.toNode_eq, List.cons_append]
        rw [rowSize_append, rowSize_cons, rowSize_nil] at hinside
        exact houter.add (.block hopening hinside hclosing (.nil _))
    | @inverse row inside behind opening marker call name inverted nodes program inverse outer houter
        hopening hinside hmarker hbehind =>
      obtain ⟨rfl, rfl⟩ := List.cons.inj hblocks
      rcases hinner with ⟨-, hinverse, -⟩ | ⟨hclosing, rfl⟩
      · cases hinverse
      · rw [List.append_assoc, OpenBlock.toNode_eq, List.cons_append, List.append_assoc, List.cons_append]
        rw [rowSize_append, rowSize_cons, rowSize_nil] at hinside
        rw [rowSize_append] at hbehind
        exact houter.add (.dividedBlock hopening hinside hmarker hbehind hclosing (.nil _))

theorem segments {rest : List Segment} (h : Holds row draft)
    (hrest : Draft.segments (rowSize row) draft rest = .ok next) : Holds (row ++ rest) next := by
  induction rest generalizing row draft with
  | nil =>
    obtain rfl := Except.ok.inj hrest
    rwa [List.append_nil]
  | cons segment rest ih =>
    obtain ⟨middle, hstep, hrest⟩ := Draft.segments_cons_eq_ok_iff.1 hrest
    rw [← List.singleton_append, ← List.append_assoc]
    refine ih (h.step hstep) ?_
    rwa [rowSize_append, rowSize_cons, rowSize_nil]

end Draft.Holds

/-- Reading a row to the end of all blocks is deriving it. -/
theorem Draft.segments_eq_ok_iff_derivation {row : List Segment} {nodes : List Node} :
    Draft.segments 0 {} row = .ok ⟨nodes, []⟩ ↔ Derivation 0 row nodes := by
  constructor
  · intro h
    have hholds : Draft.Holds ([] ++ row) ⟨nodes, []⟩ := (Draft.Holds.outside (.nil 0)).segments h
    cases hholds with
    | outside hrow => exact hrow
  · intro h
    rw [h.segments_eq, Draft.foldl_add]
    rfl

/-! ### Where nodes come from -/

/-- A node is another one or stands in one of its bodies, at any depth. -/
inductive Node.Within (node : Node) : Node → Prop where
  | self : Within node node
  | program {call : Call} {program : List Node} {inverse : Option (List Node)} {other : Node} :
    other ∈ program → Within node other → Within node (.block call program inverse)
  | inverse {call : Call} {program inverse : List Node} {other : Node} :
    other ∈ inverse → Within node other → Within node (.block call program (some inverse))

/-- A node is one of some nodes or stands in a body of theirs, at any depth. -/
def Node.Among (node : Node) (nodes : List Node) : Prop :=
  ∃ other ∈ nodes, node.Within other

theorem Node.Within.trans {inner middle outer : Node} (h : inner.Within middle) (hmiddle : middle.Within outer) :
    inner.Within outer := by
  induction hmiddle with
  | self => exact h
  | program hmem _ ih => exact .program hmem ih
  | inverse hmem _ ih => exact .inverse hmem ih

theorem Node.Among.cons_self (node : Node) (rest : List Node) : node.Among (node :: rest) :=
  ⟨node, List.mem_cons_self, .self⟩

theorem Node.Among.cons {node : Node} {nodes : List Node} (h : node.Among nodes) (first : Node) :
    node.Among (first :: nodes) := by
  obtain ⟨other, hother, hwithin⟩ := h
  exact ⟨other, List.mem_cons_of_mem first hother, hwithin⟩

theorem Node.Among.of_program {node : Node} {nodes program : List Node} {call : Call}
    {inverse : Option (List Node)} (h : node.Among program)
    (hblock : Node.Among (.block call program inverse) nodes) : node.Among nodes := by
  obtain ⟨other, hother, hwithin⟩ := h
  obtain ⟨outer, houter, hblock⟩ := hblock
  exact ⟨outer, houter, (Node.Within.program hother hwithin).trans hblock⟩

theorem Node.Among.of_inverse {node : Node} {nodes program inverse : List Node} {call : Call}
    (h : node.Among inverse) (hblock : Node.Among (.block call program (some inverse)) nodes) :
    node.Among nodes := by
  obtain ⟨other, hother, hwithin⟩ := h
  obtain ⟨outer, houter, hblock⟩ := hblock
  exact ⟨outer, houter, (Node.Within.inverse hother hwithin).trans hblock⟩

/-- The nodes in the bodies of a node. -/
@[simp] def Node.inside : Node → List Node
  | .block _ program inverse => program ++ inverse.getD []
  | _ => []

@[simp] theorem Node.not_among_nil (node : Node) : ¬node.Among [] := by
  rintro ⟨_, hother, -⟩
  cases hother

@[simp] theorem Node.among_cons_iff {node first : Node} {rest : List Node} :
    node.Among (first :: rest) ↔ node.Within first ∨ node.Among rest := by
  simp only [Among, List.mem_cons, exists_eq_or_imp]

theorem Node.within_iff {node other : Node} :
    node.Within other ↔ node = other ∨ node.Among other.inside := by
  constructor
  · intro h
    cases h with
    | self => exact .inl rfl
    | program hmem hwithin => exact .inr ⟨_, List.mem_append_left _ hmem, hwithin⟩
    | inverse hmem hwithin => exact .inr ⟨_, List.mem_append_right _ hmem, hwithin⟩
  · rintro (rfl | ⟨inner, hinner, hwithin⟩)
    · exact .self
    · match other with
      | .block call program none =>
        rw [inside, Option.getD_none, List.append_nil] at hinner
        exact .program hinner hwithin
      | .block call program (some inverse) =>
        rcases List.mem_append.1 hinner with hinner | hinner
        · exact .program hinner hwithin
        · exact .inverse hinner hwithin

/-- The call of a node, apart from those of the nodes inside. -/
def Node.call? : Node → Option Call
  | .mustache call _ => some call
  | .block call _ _ => some call
  | _ => none

theorem Node.within_ofParts {node : Node} {call : Call} {inverted : Bool} {first : List Node}
    {second : Option (List Node)} (h : node.Within (Node.ofParts call inverted first second)) :
    node = Node.ofParts call inverted first second ∨
      ∃ other, (other ∈ first ∨ other ∈ second.getD []) ∧ node.Within other := by
  cases inverted with
  | false =>
    rw [Node.ofParts] at h ⊢
    cases h with
    | self => exact .inl rfl
    | program hmem hwithin => exact .inr ⟨_, .inl hmem, hwithin⟩
    | inverse hmem hwithin => exact .inr ⟨_, .inr hmem, hwithin⟩
  | true =>
    rw [Node.ofParts] at h ⊢
    cases h with
    | self => exact .inl rfl
    | program hmem hwithin => exact .inr ⟨_, .inr hmem, hwithin⟩
    | inverse hmem hwithin => exact .inr ⟨_, .inl hmem, hwithin⟩

theorem Segment.Becomes.eq_of_within {place : Nat} {segment : Segment} {node inner : Node}
    (h : segment.Becomes place node) (hinner : inner.Within node) : inner = node := by
  cases h with
  | text content => cases hinner; rfl
  | comment body => cases hinner; rfl
  | escaped helse hcall => cases hinner; rfl
  | unescaped hkind hcall => cases hinner; rfl
  | inclusion hnode =>
    obtain ⟨_, -, ⟨-, rfl⟩ | ⟨_, _, -, -, -, rfl⟩⟩ := Node.inclusionOfBody_eq_ok_iff.1 hnode
    · cases hinner; rfl
    · cases hinner; rfl

/-- The segment that stands at a place makes a node: it is that node, or opens the block. -/
inductive Segment.Makes (place : Nat) (segment : Segment) : Node → Prop where
  | node {node : Node} : segment.Becomes place node → Makes place segment node
  | block {call : Call} {name : String} {inverted : Bool} (first : List Node) (second : Option (List Node)) :
    segment.Opens place call name inverted → Makes place segment (Node.ofParts call inverted first second)

theorem Segment.Makes.exists_body {place : Nat} {segment : Segment} {node : Node} {call : Call}
    (h : segment.Makes place node) (hcall : node.call? = some call) :
    ∃ kind body, segment = .tag kind body ∧ Call.ofBody (place + byteSize kind.opener) body = .ok call := by
  cases h with
  | node hbecomes =>
    cases hbecomes with
    | text content => cases hcall
    | comment body => cases hcall
    | escaped _ hbody =>
      obtain rfl := Option.some.inj hcall
      exact ⟨_, _, rfl, hbody⟩
    | unescaped _ hbody =>
      obtain rfl := Option.some.inj hcall
      exact ⟨_, _, rfl, hbody⟩
    | inclusion hnode =>
      obtain ⟨_, -, ⟨-, rfl⟩ | ⟨_, _, -, -, -, rfl⟩⟩ := Node.inclusionOfBody_eq_ok_iff.1 hnode
      · cases hcall
      · cases hcall
  | @block found name inverted first second hopens =>
    obtain rfl : found = call := by
      cases inverted <;> exact Option.some.inj hcall
    cases hopens with
    | plain hbody _ => exact ⟨_, _, rfl, hbody⟩
    | inverted _ hbody _ => exact ⟨_, _, rfl, hbody⟩

/-- Every node, at any depth, is made by a segment of the row. -/
theorem Derivation.exists_makes {place : Nat} {row : List Segment} {nodes : List Node}
    (h : Derivation place row nodes) {node inner : Node} (hnode : node ∈ nodes) (hinner : inner.Within node) :
    ∃ left segment right, row = left ++ segment :: right ∧ segment.Makes (place + rowSize left) inner := by
  induction h generalizing node with
  | nil place => simp at hnode
  | @single place segment _ rest _ hsegment _ ih =>
    rcases List.mem_cons.1 hnode with rfl | hnode
    · obtain rfl := hsegment.eq_of_within hinner
      exact ⟨[], segment, rest, rfl, .node hsegment⟩
    · obtain ⟨left, found, right, rfl, hmakes⟩ := ih hnode hinner
      refine ⟨segment :: left, found, right, rfl, ?_⟩
      rwa [rowSize_cons, ← Nat.add_assoc]
  | @block place opening closing call name inverted inside rest program nodes hopening _ _ _ ihInside ihRest =>
    rcases List.mem_cons.1 hnode with rfl | hnode
    · rcases Node.within_ofParts hinner with rfl | ⟨other, hother | hother, hinner⟩
      · exact ⟨[], opening, _, rfl, .block program none hopening⟩
      · obtain ⟨left, found, right, rfl, hmakes⟩ := ihInside hother hinner
        refine ⟨opening :: left, found, right ++ closing :: rest, by simp, ?_⟩
        rwa [rowSize_cons, ← Nat.add_assoc]
      · simp at hother
    · obtain ⟨left, found, right, rfl, hmakes⟩ := ihRest hnode hinner
      refine ⟨opening :: (inside ++ closing :: left), found, right, by simp, ?_⟩
      convert hmakes using 1
      simp only [rowSize_cons, rowSize_append, rowSize_nil]
      omega
  | @dividedBlock place opening marker closing call name inverted inside behind rest program inverse nodes
      hopening _ _ _ _ _ ihInside ihBehind ihRest =>
    rcases List.mem_cons.1 hnode with rfl | hnode
    · rcases Node.within_ofParts hinner with rfl | ⟨other, hother | hother, hinner⟩
      · exact ⟨[], opening, _, rfl, .block program (some inverse) hopening⟩
      · obtain ⟨left, found, right, rfl, hmakes⟩ := ihInside hother hinner
        refine ⟨opening :: left, found, right ++ marker :: (behind ++ closing :: rest), by simp, ?_⟩
        rwa [rowSize_cons, ← Nat.add_assoc]
      · obtain ⟨left, found, right, rfl, hmakes⟩ := ihBehind hother hinner
        refine ⟨opening :: (inside ++ marker :: left), found, right ++ closing :: rest, by simp, ?_⟩
        convert hmakes using 1
        simp only [rowSize_cons, rowSize_append, rowSize_nil]
        omega
    · obtain ⟨left, found, right, rfl, hmakes⟩ := ihRest hnode hinner
      refine ⟨opening :: (inside ++ marker :: (behind ++ closing :: left)), found, right, by simp, ?_⟩
      convert hmakes using 1
      simp only [rowSize_cons, rowSize_append, rowSize_nil]
      omega

end Stencil
