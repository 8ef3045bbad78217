import Stencil.Proofs.Markup.Derivation
import Stencil.Template.Compile

/-!
# Places do not matter

Words, calls and open blocks keep the places where they were read, and nothing but errors depends on
these. What can be read at one place can be read at any other, behind whatever other nodes, and is
the same up to places. A call compiles to the same whatever its place is.

Two drafts that read the same segments at different places stay related as they were, for every
relation that is kept when nodes are added and when blocks are opened, divided and closed.
-/

namespace Stencil

/-! ### Without places -/

def Call.unplaced (call : Call) : Call :=
  { call with span := ⟨0, 0⟩ }

mutual

def Node.unplaced : Node → Node
  | .content text => .content text
  | .comment text => .comment text
  | .mustache call escaped => .mustache call.unplaced escaped
  | .block call program none => .block call.unplaced (Node.allUnplaced program) none
  | .block call program (some inverse) =>
    .block call.unplaced (Node.allUnplaced program) (some (Node.allUnplaced inverse))
  | .inclusion name context => .inclusion name context

def Node.allUnplaced : List Node → List Node
  | [] => []
  | node :: rest => node.unplaced :: Node.allUnplaced rest

end

theorem Node.allUnplaced_append (left right : List Node) :
    Node.allUnplaced (left ++ right) = Node.allUnplaced left ++ Node.allUnplaced right := by
  induction left with
  | nil => rw [List.nil_append, Node.allUnplaced, List.nil_append]
  | cons node left ih => rw [List.cons_append, Node.allUnplaced, Node.allUnplaced, ih, List.cons_append]

mutual

theorem Node.compile_unplaced (options : CompileOptions) (node : Node) :
    node.unplaced.compile options = node.compile options := by
  match node with
  | .content text => rw [Node.unplaced]
  | .comment text => rw [Node.unplaced]
  | .mustache call escaped => rw [Node.unplaced, Node.compile, Node.compile]; rfl
  | .block call program none =>
    rw [Node.unplaced, Node.compile, Node.compile, compileNodes_allUnplaced options program]
    rfl
  | .block call program (some inverse) =>
    rw [Node.unplaced, Node.compile, Node.compile, compileNodes_allUnplaced options program,
      compileNodes_allUnplaced options inverse]
    rfl
  | .inclusion name context => rw [Node.unplaced]

theorem compileNodes_allUnplaced (options : CompileOptions) (nodes : List Node) :
    compileNodes options (Node.allUnplaced nodes) = compileNodes options nodes := by
  match nodes with
  | [] => rw [Node.allUnplaced]
  | node :: rest =>
    rw [Node.allUnplaced, compileNodes, compileNodes, Node.compile_unplaced options node,
      compileNodes_allUnplaced options rest]

end

def OpenBlock.unplaced (block : OpenBlock) : OpenBlock where
  call := block.call.unplaced
  name := block.name
  inverted := block.inverted
  place := 0
  program := Node.allUnplaced block.program
  inverse := block.inverse.map Node.allUnplaced

def Draft.unplaced (draft : Draft) : Draft where
  nodes := Node.allUnplaced draft.nodes
  blocks := draft.blocks.map OpenBlock.unplaced

theorem OpenBlock.unplaced_add (block : OpenBlock) (node : Node) :
    (block.add node).unplaced = block.unplaced.add node.unplaced := by
  obtain ⟨call, name, inverted, place, program, _ | inverse⟩ := block <;>
    simp [OpenBlock.add, OpenBlock.unplaced, Node.allUnplaced_append, Node.allUnplaced]

theorem OpenBlock.unplaced_toNode (block : OpenBlock) :
    block.toNode.unplaced = block.unplaced.toNode := by
  obtain ⟨call, name, _ | _, place, program, _ | inverse⟩ := block <;>
    simp [OpenBlock.toNode, OpenBlock.unplaced, Node.unplaced, Node.allUnplaced]

theorem Draft.unplaced_add (draft : Draft) (node : Node) :
    (draft.add node).unplaced = draft.unplaced.add node.unplaced := by
  obtain ⟨nodes, _ | ⟨block, outer⟩⟩ := draft <;>
    simp [Draft.add, Draft.unplaced, Node.allUnplaced_append, Node.allUnplaced, OpenBlock.unplaced_add]

/-! ### Words and calls -/

theorem Expr.ofWord_unplaced {word : Word} {expr : Expr} :
    Expr.ofWord word.unplaced = .ok expr ↔ Expr.ofWord word = .ok expr := by
  obtain ⟨key, value, quoted, place⟩ := word
  change Expr.ofWord ⟨key, value, quoted, 0⟩ = _ ↔ _
  simp only [Expr.ofWord]
  split_ifs
  · rfl
  · rfl
  · rfl
  · rfl
  · cases Path.ofText? value.toList <;> simp

theorem Expr.ofWord_of_unplaced {word other : Word} {expr : Expr} (h : word.unplaced = other.unplaced)
    (hexpr : Expr.ofWord word = .ok expr) : Expr.ofWord other = .ok expr := by
  rw [← Expr.ofWord_unplaced, h] at hexpr
  exact Expr.ofWord_unplaced.1 hexpr

theorem Word.key_eq_of_unplaced {word other : Word} (h : word.unplaced = other.unplaced) :
    word.key = other.key ∧ word.value = other.value := by
  rw [Word.unplaced, Word.unplaced, Word.mk.injEq] at h
  exact ⟨h.1, h.2.1⟩

theorem Call.addWord_of_unplaced {call other next : Call} {word moved : Word}
    (hcall : call.unplaced = other.unplaced) (hword : word.unplaced = moved.unplaced)
    (h : call.addWord word = .ok next) :
    ∃ result, other.addWord moved = .ok result ∧ next.unplaced = result.unplaced := by
  obtain ⟨value, hvalue, h⟩ := Call.addWord_eq_ok_iff.1 h
  obtain ⟨head, params, hash, span⟩ := call
  obtain ⟨head', params', hash', span'⟩ := other
  obtain ⟨rfl, rfl, rfl⟩ : head = head' ∧ params = params' ∧ hash = hash' := by
    simpa [Call.unplaced] using hcall
  have hkeys := (Word.key_eq_of_unplaced hword).1
  rcases h with ⟨key, hkey, rfl⟩ | ⟨hkey, rfl, rfl⟩
  · refine ⟨⟨head, params, hash.insert key value, span'⟩, Call.addWord_eq_ok_iff.2 ⟨value, ?_, .inl ?_⟩, rfl⟩
    · exact Expr.ofWord_of_unplaced hword hvalue
    · exact ⟨key, hkeys ▸ hkey, rfl⟩
  · refine ⟨⟨head, params ++ [value], [], span'⟩, Call.addWord_eq_ok_iff.2 ⟨value, ?_, .inr ?_⟩, rfl⟩
    · exact Expr.ofWord_of_unplaced hword hvalue
    · exact ⟨hkeys ▸ hkey, rfl, rfl⟩

theorem Call.foldlM_addWord_of_unplaced {words moved : List Word} {call other result : Call}
    (hcall : call.unplaced = other.unplaced) (hwords : words.map Word.unplaced = moved.map Word.unplaced)
    (h : words.foldlM Call.addWord call = .ok result) :
    ∃ found, moved.foldlM Call.addWord other = .ok found ∧ result.unplaced = found.unplaced := by
  induction words generalizing call other moved with
  | nil =>
    obtain rfl : moved = [] := by simpa using hwords.symm
    obtain rfl := Except.ok.inj h
    exact ⟨other, rfl, hcall⟩
  | cons word words ih =>
    cases moved with
    | nil => simp at hwords
    | cons next moved =>
      rw [List.map_cons, List.map_cons, List.cons.injEq] at hwords
      rw [List.foldlM_cons, bind_eq_ok_iff] at h
      obtain ⟨added, hadded, h⟩ := h
      obtain ⟨added', hadded', hsame⟩ := Call.addWord_of_unplaced hcall hwords.1 hadded
      obtain ⟨found, hfound, hresult⟩ := ih hsame hwords.2 h
      refine ⟨found, ?_, hresult⟩
      rw [List.foldlM_cons, hadded']
      exact hfound

theorem Call.ofBody_moved {place : Nat} {body : List Char} {call : Call}
    (h : Call.ofBody place body = .ok call) (other : Nat) :
    ∃ moved, Call.ofBody other body = .ok moved ∧ moved.unplaced = call.unplaced := by
  obtain ⟨first, others, head, hrow, hkey, hhead, hcall, hliteral⟩ := Call.ofBody_eq_ok_iff.1 h
  obtain ⟨_ | ⟨first', others'⟩, hmoved, hsame⟩ := hrow.moved other
  · simp at hsame
  · rw [List.map_cons, List.map_cons, List.cons.injEq] at hsame
    have hstart : (⟨head, [], [], ⟨place, place + byteSize body⟩⟩ : Call).unplaced =
        (⟨head, [], [], ⟨other, other + byteSize body⟩⟩ : Call).unplaced := rfl
    obtain ⟨found, hfound, hresult⟩ := Call.foldlM_addWord_of_unplaced hstart hsame.2.symm hcall
    have hparts : call.head = found.head ∧ call.params = found.params ∧ call.hash = found.hash := by
      simpa [Call.unplaced] using hresult
    refine ⟨found, Call.ofBody_eq_ok_iff.2 ⟨first', others', head, hmoved, ?_, ?_, hfound, ?_⟩,
      hresult.symm⟩
    · rw [(Word.key_eq_of_unplaced hsame.1).1, hkey]
    · exact Expr.ofWord_of_unplaced hsame.1.symm hhead
    · rw [← hliteral, Call.hasArguments, Call.hasArguments, hparts.1, hparts.2.1, hparts.2.2]

theorem Node.inclusionOfBody_moved {place : Nat} {body : List Char} {node : Node}
    (h : Node.inclusionOfBody place body = .ok node) (other : Nat) :
    Node.inclusionOfBody other body = .ok node := by
  obtain ⟨first, hkey, h⟩ := Node.inclusionOfBody_eq_ok_iff.1 h
  rcases h with ⟨hrow, rfl⟩ | ⟨second, context, hrow, hsecond, hcontext, rfl⟩
  · obtain ⟨moved, hmoved, hsame⟩ := hrow.moved other
    obtain ⟨first', rfl, hfirst⟩ := List.map_eq_singleton_iff.1 hsame
    obtain ⟨hkeys, hvalue⟩ := Word.key_eq_of_unplaced hfirst
    refine Node.inclusionOfBody_eq_ok_iff.2 ⟨first', hkeys ▸ hkey, .inl ⟨hmoved, by rw [hvalue]⟩⟩
  · obtain ⟨moved, hmoved, hsame⟩ := hrow.moved other
    obtain ⟨first', rest, rfl, hfirst, hrest⟩ := List.map_eq_cons_iff.1 hsame
    obtain ⟨second', rfl, hsecond'⟩ := List.map_eq_singleton_iff.1 hrest
    obtain ⟨hkeys, hvalue⟩ := Word.key_eq_of_unplaced hfirst
    refine Node.inclusionOfBody_eq_ok_iff.2 ⟨first', hkeys ▸ hkey, .inr ⟨second', context, hmoved, ?_, ?_, ?_⟩⟩
    · rw [(Word.key_eq_of_unplaced hsecond').1, hsecond]
    · exact Expr.ofWord_of_unplaced hsecond'.symm hcontext
    · rw [hvalue]

/-! ### Segments -/

theorem Segment.Becomes.moved {place : Nat} {segment : Segment} {node : Node} (h : segment.Becomes place node)
    (other : Nat) : ∃ moved, segment.Becomes other moved ∧ moved.unplaced = node.unplaced := by
  cases h with
  | text content => exact ⟨_, .text content, rfl⟩
  | comment body => exact ⟨_, .comment body, rfl⟩
  | escaped helse hcall =>
    obtain ⟨moved, hmoved, hsame⟩ := Call.ofBody_moved hcall (other + byteSize (TagKind.opener .escaped))
    exact ⟨_, .escaped helse hmoved, by rw [Node.unplaced, Node.unplaced, hsame]⟩
  | @unescaped kind _ _ hkind hcall =>
    obtain ⟨moved, hmoved, hsame⟩ := Call.ofBody_moved hcall (other + byteSize kind.opener)
    exact ⟨_, .unescaped hkind hmoved, by rw [Node.unplaced, Node.unplaced, hsame]⟩
  | inclusion hnode =>
    exact ⟨_, .inclusion (Node.inclusionOfBody_moved hnode (other + byteSize (TagKind.opener .inclusion))), rfl⟩

theorem Segment.Opens.moved {place : Nat} {segment : Segment} {call : Call} {name : String} {inverted : Bool}
    (h : segment.Opens place call name inverted) (other : Nat) :
    ∃ moved, segment.Opens other moved name inverted ∧ moved.unplaced = call.unplaced := by
  cases h with
  | plain hcall hhead =>
    obtain ⟨moved, hmoved, hsame⟩ := Call.ofBody_moved hcall (other + byteSize (TagKind.opener .block))
    exact ⟨moved, .plain hmoved ((Call.mk.inj hsame).1.trans hhead), hsame⟩
  | inverted hbody hcall hhead =>
    obtain ⟨moved, hmoved, hsame⟩ := Call.ofBody_moved hcall (other + byteSize (TagKind.opener .inverse))
    exact ⟨moved, .inverted hbody hmoved ((Call.mk.inj hsame).1.trans hhead), hsame⟩

theorem Node.unplaced_ofParts (call : Call) (inverted : Bool) (first : List Node)
    (second : Option (List Node)) :
    (Node.ofParts call inverted first second).unplaced =
      Node.ofParts call.unplaced inverted (Node.allUnplaced first) (second.map Node.allUnplaced) := by
  cases inverted <;> cases second <;> rfl

/-- What a row makes at one place, it makes at every place, up to places. -/
theorem Derivation.moved {place : Nat} {row : List Segment} {nodes : List Node} (h : Derivation place row nodes)
    (other : Nat) : ∃ moved, Derivation other row moved ∧ Node.allUnplaced moved = Node.allUnplaced nodes := by
  induction h generalizing other with
  | nil => exact ⟨[], .nil other, rfl⟩
  | single hsegment _ ih =>
    obtain ⟨node, hnode, hsame⟩ := hsegment.moved other
    obtain ⟨rest, hrest, hsameRest⟩ := ih (other + byteSize _)
    exact ⟨node :: rest, .single hnode hrest, by rw [Node.allUnplaced, Node.allUnplaced, hsame, hsameRest]⟩
  | block hopening _ hclosing _ ihInside ihRest =>
    obtain ⟨call, hcall, hsame⟩ := hopening.moved other
    obtain ⟨program, hprogram, hsameProgram⟩ := ihInside (other + byteSize _)
    obtain ⟨rest, hrest, hsameRest⟩ := ihRest (other + rowSize _)
    refine ⟨_, .block hcall hprogram hclosing hrest, ?_⟩
    rw [Node.allUnplaced, Node.allUnplaced, Node.unplaced_ofParts, Node.unplaced_ofParts, hsame,
      hsameProgram, hsameRest]
  | dividedBlock hopening _ hmarker _ hclosing _ ihInside ihBehind ihRest =>
    obtain ⟨call, hcall, hsame⟩ := hopening.moved other
    obtain ⟨program, hprogram, hsameProgram⟩ := ihInside (other + byteSize _)
    obtain ⟨inverse, hinverse, hsameInverse⟩ := ihBehind (other + rowSize _)
    obtain ⟨rest, hrest, hsameRest⟩ := ihRest (other + rowSize _)
    refine ⟨_, .dividedBlock hcall hprogram hmarker hinverse hclosing hrest, ?_⟩
    rw [Node.allUnplaced, Node.allUnplaced, Node.unplaced_ofParts, Node.unplaced_ofParts, Option.map_some,
      Option.map_some, hsame, hsameProgram, hsameInverse, hsameRest]

/-! ### Drafts -/

/-- A relation between drafts that stays when both take the same node or open the same block, up to
places. If the second draft divides or closes its innermost block, so can the first. -/
structure Draft.Keeps (related : Draft → Draft → Prop) : Prop where
  add {left right : Draft} {node other : Node} : related left right → node.unplaced = other.unplaced →
    related (left.add node) (right.add other)
  openBlock {left right : Draft} {call other : Call} (name : String) (inverted : Bool) (place behind : Nat) :
    related left right → call.unplaced = other.unplaced →
    related ⟨left.nodes, ⟨call, name, inverted, place, [], none⟩ :: left.blocks⟩
      ⟨right.nodes, ⟨other, name, inverted, behind, [], none⟩ :: right.blocks⟩
  innermost {left right : Draft} {block : OpenBlock} {outer : List OpenBlock} : related left right →
    right.blocks = block :: outer → ∃ found rest, left.blocks = found :: rest ∧ found.name = block.name ∧
      (block.inverse = none → found.inverse = none ∧
        related ⟨left.nodes, { found with inverse := some [] } :: rest⟩
          ⟨right.nodes, { block with inverse := some [] } :: outer⟩) ∧
      related (Draft.add ⟨left.nodes, rest⟩ found.toNode) (Draft.add ⟨right.nodes, outer⟩ block.toNode)

section

variable {related : Draft → Draft → Prop} {left right : Draft}

theorem Draft.Step.moved {next : Draft} {place : Nat} {segment : Segment} (h : right.Step place segment next)
    (hkeeps : Draft.Keeps related) (hrelated : related left right) (other : Nat) :
    ∃ moved, left.Step other segment moved ∧ related moved next := by
  rcases h.cases_role with ⟨node, hnode, rfl⟩ | ⟨call, name, inverted, hopening, rfl⟩ |
    ⟨block, outer, hblocks, hinner⟩
  · obtain ⟨moved, hmoved, hsame⟩ := hnode.moved other
    exact ⟨_, .of_becomes hmoved, hkeeps.add hrelated hsame⟩
  · obtain ⟨moved, hmoved, hsame⟩ := hopening.moved other
    exact ⟨_, .of_opens hmoved, hkeeps.openBlock name inverted other place hrelated hsame⟩
  · obtain ⟨found, rest, hfound, hname, hdivided, hclosed⟩ := hkeeps.innermost hrelated hblocks
    rcases hinner with ⟨hmarker, hinverse, rfl⟩ | ⟨hclosing, rfl⟩
    · obtain ⟨hnone, hdivided⟩ := hdivided hinverse
      exact ⟨_, .of_divides hmarker hfound hnone, hdivided⟩
    · rw [← hname] at hclosing
      exact ⟨_, .of_closes hclosing hfound, hclosed⟩

theorem Draft.segments_moved {last : Draft} {place : Nat} {row : List Segment}
    (h : Draft.segments place right row = .ok last) (hkeeps : Draft.Keeps related)
    (hrelated : related left right) (other : Nat) :
    ∃ moved, Draft.segments other left row = .ok moved ∧ related moved last := by
  induction row generalizing left right place other with
  | nil =>
    obtain rfl := Except.ok.inj h
    exact ⟨left, rfl, hrelated⟩
  | cons segment rest ih =>
    obtain ⟨next, hnext, h⟩ := Draft.segments_cons_eq_ok_iff.1 h
    obtain ⟨next', hnext', hrelated⟩ := hnext.moved hkeeps hrelated other
    obtain ⟨moved, hmoved, hlast⟩ := ih h hrelated (other + byteSize segment.raw)
    exact ⟨moved, Draft.segments_cons_eq_ok_iff.2 ⟨next', hnext', hmoved⟩, hlast⟩

end

/-- Two drafts that are the same up to places and up to the nodes that they started behind. -/
def Draft.Follows (before behind : List Node) (left right : Draft) : Prop :=
  (∃ own, Node.allUnplaced left.nodes = Node.allUnplaced before ++ own ∧
    Node.allUnplaced right.nodes = Node.allUnplaced behind ++ own) ∧
  left.blocks.map OpenBlock.unplaced = right.blocks.map OpenBlock.unplaced

namespace Draft.Follows

theorem start (before behind : List Node) : Follows before behind ⟨before, []⟩ ⟨behind, []⟩ :=
  ⟨⟨[], by simp⟩, rfl⟩

theorem add {before behind : List Node} {left right : Draft} (h : left.Follows before behind right)
    {node other : Node} (hnode : node.unplaced = other.unplaced) :
    (left.add node).Follows before behind (right.add other) := by
  obtain ⟨leftNodes, leftBlocks⟩ := left
  obtain ⟨rightNodes, rightBlocks⟩ := right
  obtain ⟨⟨own, hleft, hright⟩, hblocks⟩ := h
  cases leftBlocks with
  | nil =>
    obtain rfl : rightBlocks = [] := by simpa using hblocks.symm
    refine ⟨⟨own ++ [node.unplaced], ?_, ?_⟩, rfl⟩
    · simp only [Draft.add, Node.allUnplaced_append, hleft, Node.allUnplaced, List.append_assoc]
    · simp only [Draft.add, Node.allUnplaced_append, hright, Node.allUnplaced, List.append_assoc, hnode]
  | cons block outer =>
    obtain ⟨block', outer', rfl, hblock, houter⟩ := List.map_eq_cons_iff.1 hblocks.symm
    refine ⟨⟨own, hleft, hright⟩, ?_⟩
    simp only [Draft.add, List.map_cons, OpenBlock.unplaced_add, hblock, hnode, houter]

theorem keeps (before behind : List Node) : Draft.Keeps (Follows before behind) where
  add hfollows hnode := hfollows.add hnode
  openBlock name inverted place other hfollows hcall := by
    refine ⟨hfollows.1, ?_⟩
    simp only [List.map_cons, hfollows.2, OpenBlock.unplaced, hcall]
  innermost := by
    intro left right block outer hfollows hblocks
    have hsame := hfollows.2
    rw [hblocks] at hsame
    obtain ⟨found, rest, hleft, hfound, hrest⟩ := List.map_eq_cons_iff.1 hsame
    have hname : found.unplaced.name = block.unplaced.name := by rw [hfound]
    refine ⟨found, rest, hleft, hname, fun hinverse => ⟨?_, hfollows.1, ?_⟩, ?_⟩
    · have hmap := congrArg OpenBlock.inverse hfound
      rw [OpenBlock.unplaced, OpenBlock.unplaced, hinverse] at hmap
      exact Option.map_eq_none_iff.1 hmap
    · rw [OpenBlock.unplaced, OpenBlock.unplaced, OpenBlock.mk.injEq] at hfound
      simp only [List.map_cons, hrest, OpenBlock.unplaced, hfound]
    · have houter : Follows before behind ⟨left.nodes, rest⟩ ⟨right.nodes, outer⟩ := ⟨hfollows.1, hrest⟩
      refine houter.add ?_
      rw [OpenBlock.unplaced_toNode, OpenBlock.unplaced_toNode, hfound]

end Draft.Follows

end Stencil
