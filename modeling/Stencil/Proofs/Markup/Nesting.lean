import Stencil.Proofs.Markup.Derivation
import Stencil.Proofs.Markup.Placement

/-!
# How blocks nest

A scan of the tags from left to right keeps the names of the open blocks on a stack. A closing tag
has to repeat the innermost name, an inverse marker has to stand directly in a block that has had
none, and no block may be left open. If the tags are readable one by one, this scan decides whether
a template parses and what its first fault is, and the nodes are the only ones that the segments
derive.
-/

namespace Stencil

/-- A block that is open, as a scan of the tags remembers it. -/
structure OpenTag where
  name : String
  /-- Where the tag that opened the block stands -/
  place : Nat
  /-- Whether the block has had its inverse marker -/
  divided : Bool
deriving Repr, DecidableEq

/-- What a segment means for the blocks around it. -/
inductive Role where
  | node
  | opens (name : String)
  | divides
  | closes (name : String)
deriving Repr, DecidableEq

namespace Role

/-- The open blocks, innermost first, behind a segment that stands at a place. -/
def after (place : Nat) : Role → List OpenTag → List OpenTag
  | .opens name, tags => ⟨name, place, false⟩ :: tags
  | .divides, tag :: outer => { tag with divided := true } :: outer
  | .closes _, _ :: outer => outer
  | _, tags => tags

/-- What is wrong with a segment that stands at a place inside the given open blocks, if anything
is. -/
def violation? (place : Nat) : Role → List OpenTag → Option Fault
  | .divides, [] => some ⟨.misplacedInverse, place⟩
  | .divides, tag :: _ => if tag.divided then some ⟨.misplacedInverse, place⟩ else none
  | .closes name, [] => some ⟨.unexpectedClose name, place⟩
  | .closes name, tag :: _ =>
    if tag.name = name then none else some ⟨.blockMismatch tag.name name, place⟩
  | _, _ => none

end Role

/-- The name of a block that has the given body in its opening tag: the head as it is written, which
has to be a path. -/
def blockName? (body : List Char) : Option String :=
  match Call.ofBody 0 body with
  | .ok call =>
    match call.head with
    | .path path => some path.text
    | .literal _ => none
  | .error _ => none

namespace Segment

/-- The role of a segment, if its body can be read by itself. -/
def role? : Segment → Option Role
  | .text _ | .comment _ => some .node
  | .tag .escaped body =>
    if trim body = ['e', 'l', 's', 'e'] then some .divides
    else (Call.ofBody 0 body).toOption.map fun _ => .node
  | .tag .unescaped body | .tag .ampersand body => (Call.ofBody 0 body).toOption.map fun _ => .node
  | .tag .inclusion body => (Node.inclusionOfBody 0 body).toOption.map fun _ => .node
  | .tag .block body => (blockName? body).map .opens
  | .tag .inverse body => if trim body = [] then some .divides else (blockName? body).map .opens
  | .tag .endBlock body => some (.closes (String.ofList (trim body)))

def after (place : Nat) (segment : Segment) (tags : List OpenTag) : List OpenTag :=
  match segment.role? with
  | some role => role.after place tags
  | none => tags

def violation? (place : Nat) (segment : Segment) (tags : List OpenTag) : Option Fault :=
  segment.role?.bind (·.violation? place tags)

end Segment

/-- The blocks that a row of segments leaves open. The row starts at a place, inside some open
blocks. -/
def openTags : Nat → List OpenTag → List Segment → List OpenTag
  | _, tags, [] => tags
  | place, tags, segment :: rest => openTags (place + byteSize segment.raw) (segment.after place tags) rest

/-- No segment of the row is wrong inside the blocks that those before it leave open. -/
def Orderly (place : Nat) (tags : List OpenTag) (row : List Segment) : Prop :=
  ∀ before segment rest, row = before ++ segment :: rest →
    segment.violation? (place + rowSize before) (openTags place tags before) = none

/-- The first segment of the row that is wrong inside the blocks that those before it leave open has
the given fault. -/
def Violates (place : Nat) (tags : List OpenTag) (row : List Segment) (fault : Fault) : Prop :=
  ∃ before segment rest, row = before ++ segment :: rest ∧ Orderly place tags before ∧
    segment.violation? (place + rowSize before) (openTags place tags before) = some fault

section Scan

variable {place : Nat} {tags : List OpenTag} {segment : Segment} {rest : List Segment} {fault : Fault}

theorem orderly_nil : Orderly place tags [] := by
  intro before segment rest h
  simp at h

theorem orderly_cons_iff : Orderly place tags (segment :: rest) ↔
    segment.violation? place tags = none ∧
      Orderly (place + byteSize segment.raw) (segment.after place tags) rest := by
  constructor
  · intro h
    constructor
    · exact h [] segment rest rfl
    · rintro before other after rfl
      have hother := h (segment :: before) other after rfl
      rwa [rowSize_cons, ← Nat.add_assoc] at hother
  · rintro ⟨hsegment, hrest⟩ (_ | ⟨first, before⟩) other after h
    · obtain ⟨rfl, -⟩ := List.cons.inj h
      exact hsegment
    · obtain ⟨rfl, rfl⟩ := List.cons.inj h
      rw [rowSize_cons, ← Nat.add_assoc]
      exact hrest before other after rfl

theorem violates_nil : ¬Violates place tags [] fault := by
  rintro ⟨before, segment, rest, h, -⟩
  simp at h

theorem violates_cons_iff : Violates place tags (segment :: rest) fault ↔
    segment.violation? place tags = some fault ∨ (segment.violation? place tags = none ∧
      Violates (place + byteSize segment.raw) (segment.after place tags) rest fault) := by
  constructor
  · rintro ⟨_ | ⟨first, before⟩, other, after, h, hbefore, hother⟩
    · obtain ⟨rfl, -⟩ := List.cons.inj h
      exact .inl hother
    · obtain ⟨rfl, rfl⟩ := List.cons.inj h
      obtain ⟨hsegment, hbefore⟩ := orderly_cons_iff.1 hbefore
      rw [rowSize_cons, ← Nat.add_assoc] at hother
      exact .inr ⟨hsegment, before, other, after, rfl, hbefore, hother⟩
  · rintro (hsegment | ⟨hsegment, before, other, after, rfl, hbefore, hother⟩)
    · exact ⟨[], segment, rest, rfl, orderly_nil, hsegment⟩
    · refine ⟨segment :: before, other, after, rfl, orderly_cons_iff.2 ⟨hsegment, hbefore⟩, ?_⟩
      rwa [rowSize_cons, ← Nat.add_assoc]

theorem orderly_or_violates (place : Nat) (tags : List OpenTag) (row : List Segment) :
    Orderly place tags row ∨ ∃ fault, Violates place tags row fault := by
  induction row generalizing place tags with
  | nil => exact .inl orderly_nil
  | cons segment rest ih =>
    cases hsegment : segment.violation? place tags with
    | some fault => exact .inr ⟨fault, violates_cons_iff.2 (.inl hsegment)⟩
    | none =>
      rcases ih (place + byteSize segment.raw) (segment.after place tags) with hrest | ⟨fault, hrest⟩
      · exact .inl (orderly_cons_iff.2 ⟨hsegment, hrest⟩)
      · exact .inr ⟨fault, violates_cons_iff.2 (.inr ⟨hsegment, hrest⟩)⟩

end Scan

/-! ### Roles of segments -/

theorem toOption_eq_some_iff {ε α : Type} {value : Except ε α} {result : α} :
    value.toOption = some result ↔ value = .ok result := by
  cases value <;> simp [Except.toOption]

theorem blockName?_eq_some_iff {body : List Char} {name : String} :
    blockName? body = some name ↔
      ∃ call path, Call.ofBody 0 body = .ok call ∧ call.head = .path path ∧ path.text = name := by
  rw [blockName?]
  cases Call.ofBody 0 body with
  | error fault => simp
  | ok call =>
    cases hhead : call.head with
    | literal literal => simp [hhead]
    | path path => simp [hhead]

theorem exists_call_of_blockName {body : List Char} {name : String} (h : blockName? body = some name)
    (place : Nat) :
    ∃ call path, Call.ofBody place body = .ok call ∧ call.head = .path path ∧ path.text = name := by
  obtain ⟨call, path, hcall, hhead, hname⟩ := blockName?_eq_some_iff.1 h
  obtain ⟨moved, hmoved, hsame⟩ := Call.ofBody_moved hcall place
  exact ⟨moved, path, hmoved, (Call.mk.inj hsame).1.trans hhead, hname⟩

theorem exists_call_of_node {body : List Char} {role : Role}
    (h : (Call.ofBody 0 body).toOption.map (fun _ => Role.node) = some role) (place : Nat) :
    ∃ call, Call.ofBody place body = .ok call ∧ role = .node := by
  obtain ⟨call, hcall, rfl⟩ := Option.map_eq_some_iff.1 h
  obtain ⟨moved, hmoved, -⟩ := Call.ofBody_moved (toOption_eq_some_iff.1 hcall) place
  exact ⟨moved, hmoved, rfl⟩

theorem Segment.after_of_role {segment : Segment} {role : Role} (h : segment.role? = some role) (place : Nat)
    (tags : List OpenTag) : segment.after place tags = role.after place tags := by
  rw [after, h]

theorem Segment.violation?_of_role {segment : Segment} {role : Role} (h : segment.role? = some role)
    (place : Nat) (tags : List OpenTag) : segment.violation? place tags = role.violation? place tags := by
  rw [violation?, h, Option.bind_some]

/-- What a segment with a role is at every place. -/
inductive Segment.Plays (place : Nat) (segment : Segment) : Role → Prop where
  | node {node : Node} : segment.Becomes place node → Plays place segment .node
  | opens {call : Call} {name : String} {inverted : Bool} :
    segment.Opens place call name inverted → Plays place segment (.opens name)
  | divides : segment.Divides → Plays place segment .divides
  | closes {name : String} : segment.Closes name → Plays place segment (.closes name)

theorem Segment.plays_of_role {segment : Segment} {role : Role} (h : segment.role? = some role)
    (place : Nat) : segment.Plays place role := by
  cases segment with
  | text content =>
    obtain rfl := Option.some.inj h
    exact .node (.text content)
  | comment body =>
    obtain rfl := Option.some.inj h
    exact .node (.comment body)
  | tag kind body =>
    cases kind with
    | escaped =>
      rw [role?] at h
      split at h
      · next helse =>
        obtain rfl := Option.some.inj h
        exact .divides (.word helse)
      · next helse =>
        obtain ⟨call, hcall, rfl⟩ := exists_call_of_node h _
        exact .node (.escaped helse hcall)
    | unescaped =>
      obtain ⟨call, hcall, rfl⟩ := exists_call_of_node h _
      exact .node (.unescaped (.inl rfl) hcall)
    | ampersand =>
      obtain ⟨call, hcall, rfl⟩ := exists_call_of_node h _
      exact .node (.unescaped (.inr rfl) hcall)
    | inclusion =>
      obtain ⟨node, hnode, rfl⟩ := Option.map_eq_some_iff.1 h
      exact .node (.inclusion (Node.inclusionOfBody_moved (toOption_eq_some_iff.1 hnode) _))
    | block =>
      obtain ⟨name, hname, rfl⟩ := Option.map_eq_some_iff.1 h
      obtain ⟨call, path, hcall, hhead, rfl⟩ := exists_call_of_blockName hname
        (place + byteSize (TagKind.opener .block))
      exact .opens (.plain hcall hhead)
    | inverse =>
      rw [role?] at h
      split at h
      · next hempty =>
        obtain rfl := Option.some.inj h
        exact .divides (.caret hempty)
      · next hempty =>
        obtain ⟨name, hname, rfl⟩ := Option.map_eq_some_iff.1 h
        obtain ⟨call, path, hcall, hhead, rfl⟩ := exists_call_of_blockName hname
          (place + byteSize (TagKind.opener .inverse))
        exact .opens (.inverted hempty hcall hhead)
    | endBlock =>
      obtain rfl := Option.some.inj h
      exact .closes (.tag body)

/-! ### The scan and the draft -/

def OpenBlock.openTag (block : OpenBlock) : OpenTag :=
  ⟨block.name, block.place, block.inverse.isSome⟩

def Draft.openTags (draft : Draft) : List OpenTag :=
  draft.blocks.map OpenBlock.openTag

theorem Draft.openTags_add (draft : Draft) (node : Node) : (draft.add node).openTags = draft.openTags := by
  obtain ⟨nodes, blocks⟩ := draft
  cases blocks with
  | nil => rfl
  | cons block outer =>
    obtain ⟨call, name, inverted, place, program, inverse⟩ := block
    cases inverse <;> rfl

theorem Draft.segment_of_divides {segment : Segment} (h : segment.Divides) (draft : Draft) (place : Nat) :
    draft.segment place segment = draft.startInverse place := by
  cases h with
  | caret hbody => simp [segment, tag, hbody]
  | word hbody => simp [segment, tag, hbody]

theorem Draft.segment_of_closes {segment : Segment} {name : String} (h : segment.Closes name) (draft : Draft)
    (place : Nat) : draft.segment place segment = draft.closeBlock place name := by
  cases h with
  | tag body => rfl

/-- A segment that is wrong has that fault, and the others are read; then the draft has the blocks
open that the scan has. -/
theorem Draft.segment_of_role (draft : Draft) (place : Nat) {segment : Segment} {role : Role}
    (h : segment.role? = some role) :
    match role.violation? place draft.openTags with
    | some fault => draft.segment place segment = .error fault
    | none => ∃ next, draft.segment place segment = .ok next ∧
        next.openTags = role.after place draft.openTags := by
  obtain ⟨nodes, blocks⟩ := draft
  cases Segment.plays_of_role h place with
  | node hnode => exact ⟨_, Draft.segment_eq_ok_iff.2 (.of_becomes hnode), Draft.openTags_add _ _⟩
  | opens hopens => exact ⟨_, Draft.segment_eq_ok_iff.2 (.of_opens hopens), rfl⟩
  | divides hdivides =>
    rw [Draft.segment_of_divides hdivides]
    cases blocks with
    | nil => rfl
    | cons block outer =>
      obtain ⟨call, name, inverted, start, program, inverse⟩ := block
      cases inverse with
      | none => exact ⟨_, rfl, rfl⟩
      | some nodes => rfl
  | @closes name hcloses =>
    rw [Draft.segment_of_closes hcloses, Draft.closeBlock]
    cases blocks with
    | nil => rfl
    | cons block outer =>
      simp only [Draft.openTags, List.map_cons, Role.violation?, OpenBlock.openTag]
      by_cases hname : block.name = name
      · simp only [hname, if_true]
        exact ⟨_, rfl, Draft.openTags_add _ _⟩
      · simp only [hname, if_false]

section Reading

variable {place : Nat} {row : List Segment}

theorem Draft.segments_of_orderly (draft : Draft) (hroles : ∀ segment ∈ row, segment.role?.isSome)
    (h : Orderly place draft.openTags row) :
    ∃ last, Draft.segments place draft row = .ok last ∧
      last.openTags = Stencil.openTags place draft.openTags row := by
  induction row generalizing place draft with
  | nil => exact ⟨draft, rfl, rfl⟩
  | cons segment rest ih =>
    obtain ⟨role, hrole⟩ := Option.isSome_iff_exists.1 (hroles segment (by simp))
    have hread := Draft.segment_of_role draft place hrole
    rw [orderly_cons_iff, Segment.violation?_of_role hrole, Segment.after_of_role hrole] at h
    rw [h.1] at hread
    obtain ⟨next, hnext, htags⟩ := hread
    rw [← htags] at h
    obtain ⟨last, hlast, hopen⟩ := ih next (fun other hother => hroles other (by simp [hother])) h.2
    refine ⟨last, ?_, ?_⟩
    · rw [Draft.segments, hnext]
      exact hlast
    · rw [hopen, Stencil.openTags, Segment.after_of_role hrole, htags]

theorem Draft.segments_of_violates (draft : Draft) {fault : Fault}
    (hroles : ∀ segment ∈ row, segment.role?.isSome) (h : Violates place draft.openTags row fault) :
    Draft.segments place draft row = .error fault := by
  induction row generalizing place draft with
  | nil => exact absurd h violates_nil
  | cons segment rest ih =>
    obtain ⟨role, hrole⟩ := Option.isSome_iff_exists.1 (hroles segment (by simp))
    have hread := Draft.segment_of_role draft place hrole
    rw [violates_cons_iff, Segment.violation?_of_role hrole, Segment.after_of_role hrole] at h
    rcases h with hsegment | ⟨hsegment, hrest⟩
    · rw [hsegment] at hread
      rw [Draft.segments, hread]
      rfl
    · rw [hsegment] at hread
      obtain ⟨next, hnext, htags⟩ := hread
      rw [← htags] at hrest
      rw [Draft.segments, hnext]
      exact ih next (fun other hother => hroles other (by simp [hother])) hrest

end Reading

/-! ### Whole templates -/

/-- The first thing that is wrong with the blocks of a template: the first segment that is wrong
inside the blocks open before it, or else the innermost block that is left open. -/
inductive FirstViolation (row : List Segment) : Fault → Prop where
  | tag {fault : Fault} : Violates 0 [] row fault → FirstViolation row fault
  | unclosed {tag : OpenTag} {outer : List OpenTag} : Orderly 0 [] row → openTags 0 [] row = tag :: outer →
    FirstViolation row ⟨.unclosedBlock tag.name, tag.place⟩

section Template

variable {source : List Char} {row : List Segment}

theorem parseText_of_row (hrow : (segments source).all = .ok row) :
    parseText source = (Draft.segments 0 {} row >>= Draft.finish) := by
  rw [parseText, hrow]
  rfl

/-- The blocks of a template are in order and all closed, or there is a first thing wrong with
them. -/
theorem orderly_or_firstViolation (row : List Segment) :
    (Orderly 0 [] row ∧ openTags 0 [] row = []) ∨ ∃ fault, FirstViolation row fault := by
  rcases orderly_or_violates 0 [] row with horderly | ⟨fault, hviolates⟩
  · cases htags : openTags 0 [] row with
    | nil => exact .inl ⟨horderly, rfl⟩
    | cons tag outer => exact .inr ⟨_, .unclosed horderly htags⟩
  · exact .inr ⟨fault, .tag hviolates⟩

theorem exists_nodes_of_orderly (hrow : (segments source).all = .ok row)
    (hroles : ∀ segment ∈ row, segment.role?.isSome) (horderly : Orderly 0 [] row)
    (hclosed : openTags 0 [] row = []) : ∃ nodes, parseText source = .ok nodes := by
  obtain ⟨⟨nodes, blocks⟩, hread, htags⟩ := Draft.segments_of_orderly {} hroles horderly
  obtain rfl : blocks = [] := List.map_eq_nil_iff.1 (htags.trans hclosed)
  exact ⟨nodes, by rw [parseText_of_row hrow, hread]; rfl⟩

theorem FirstViolation.parseText_eq {fault : Fault} (h : FirstViolation row fault)
    (hrow : (segments source).all = .ok row) (hroles : ∀ segment ∈ row, segment.role?.isSome) :
    parseText source = .error fault := by
  rw [parseText_of_row hrow]
  cases h with
  | tag hviolates =>
    rw [Draft.segments_of_violates {} hroles hviolates]
    rfl
  | unclosed horderly hopen =>
    obtain ⟨⟨nodes, blocks⟩, hread, htags⟩ := Draft.segments_of_orderly {} hroles horderly
    obtain ⟨block, outer, rfl, rfl, -⟩ := List.map_eq_cons_iff.1 (htags.trans hopen)
    rw [hread]
    rfl

end Template

/-- **How blocks nest.** Take a template that falls into segments, each readable by itself. It
parses exactly if every closing tag repeats the innermost open name, every inverse marker stands
directly in a block that has had none, and no block is left open; otherwise it fails with the first
violation. Its nodes are the only ones that its segments derive. -/
theorem parse_nesting {source : String} {row : List Segment}
    (hrow : (segments source.toList).all = .ok row) (hroles : ∀ segment ∈ row, segment.role?.isSome) :
    ((∃ nodes, parse source = .ok nodes) ↔ Orderly 0 [] row ∧ openTags 0 [] row = []) ∧
    (∀ error, parse source = .error error ↔
      ∃ fault, FirstViolation row fault ∧ error = fault.inSource source.toList) ∧
    (∀ nodes, parse source = .ok nodes ↔ Derivation 0 row nodes) ∧
    ∀ nodes other, Derivation 0 row nodes → Derivation 0 row other → nodes = other := by
  have hderived : ∀ nodes, parse source = .ok nodes ↔ Derivation 0 row nodes := by
    intro nodes
    rw [parse_eq_ok_iff, parseText_eq_ok_iff, ← Draft.segments_eq_ok_iff_derivation]
    constructor
    · rintro ⟨found, hfound, hread⟩
      obtain rfl := Except.ok.inj ((segments_all_eq_ok_iff.2 hfound).symm.trans hrow)
      exact hread
    · exact fun hread => ⟨row, segments_all_eq_ok_iff.1 hrow, hread⟩
  have hfails : ∀ fault, FirstViolation row fault →
      parse source = .error (fault.inSource source.toList) := by
    intro fault hfault
    rw [parse, hfault.parseText_eq hrow hroles]
    rfl
  refine ⟨⟨?_, ?_⟩, fun error => ⟨?_, ?_⟩, hderived, ?_⟩
  · rintro ⟨nodes, hnodes⟩
    rcases orderly_or_firstViolation row with hordered | ⟨fault, hfault⟩
    · exact hordered
    · rw [hfails fault hfault] at hnodes
      cases hnodes
  · rintro ⟨horderly, hclosed⟩
    obtain ⟨nodes, hnodes⟩ := exists_nodes_of_orderly hrow hroles horderly hclosed
    exact ⟨nodes, parse_eq_ok_iff.2 hnodes⟩
  · intro herror
    rcases orderly_or_firstViolation row with ⟨horderly, hclosed⟩ | ⟨fault, hfault⟩
    · obtain ⟨nodes, hnodes⟩ := exists_nodes_of_orderly hrow hroles horderly hclosed
      rw [parse_eq_ok_iff.2 hnodes] at herror
      cases herror
    · rw [hfails fault hfault] at herror
      exact ⟨fault, hfault, (Except.error.inj herror).symm⟩
  · rintro ⟨fault, hfault, rfl⟩
    exact hfails fault hfault
  · intro nodes other hnodes hother
    exact Except.ok.inj (((hderived nodes).2 hnodes).symm.trans ((hderived other).2 hother))

/-- The blocks of a template are in order up to a closing tag behind the last of them. -/
theorem parse_nesting_unexpected_close :
    let source := "{{#a}}{{^b}}x{{else}}y{{/b}}{{/a}}{{/c}}"
    parse source = .error (Fault.inSource source.toList ⟨.unexpectedClose "c", 34⟩) := by
  intro source
  let ordered : List Segment := [.tag .block ['a'], .tag .inverse ['b'], .text ['x'],
    .tag .escaped ['e', 'l', 's', 'e'], .text ['y'], .tag .endBlock ['b'], .tag .endBlock ['a']]
  have hordered : Orderly 0 [] ordered := by
    repeat refine orderly_cons_iff.2 ⟨by decide, ?_⟩
    exact orderly_nil
  have hrow : (segments source.toList).all = .ok (ordered ++ [.tag .endBlock ['c']]) := by decide
  refine ((parse_nesting hrow (by decide)).2.1 _).2
    ⟨_, .tag ⟨ordered, .tag .endBlock ['c'], [], rfl, hordered, by decide⟩, rfl⟩

end Stencil
