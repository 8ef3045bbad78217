import Stencil.Proofs.Markup.RoundTrip
import Stencil.Proofs.Markup.Seams
import Stencil.Proofs.Render.Interpretation

/-!
# Inverted blocks

An inverted block is the plain block with its two parts the other way round. Sources that parse can
be written between the tags of a block whatever they are, unless a brace at the end of one meets the
tag behind it. The block then has what they parse to as its parts, up to places. So an inverted
block and the plain block with the parts exchanged parse to the same nodes, and compile to the same
operations.
-/

namespace Stencil

/-! ### Tags around sources -/

theorem Segmented.cons_tag {kind : TagKind} {body rest : List Char} {row : List Segment}
    (htag : (Segment.tag kind body).Stands) (h : Segmented rest row) :
    Segmented ((Segment.tag kind body).raw ++ rest) (.tag kind body :: row) :=
  .cons (Segment.read?_tag htag rest) h

theorem Segmented.append_tag {kind : TagKind} {left body rest : List Char} {leftRow row : List Segment}
    (hleft : Segmented left leftRow) (hright : Segmented rest (.tag kind body :: row))
    (hleftStands : ∀ segment ∈ leftRow, segment.Stands)
    (hstands : ∀ segment ∈ .tag kind body :: row, segment.Stands) (hbrace : left.getLast? ≠ some '{') :
    Segmented (left ++ rest) (leftRow ++ .tag kind body :: row) :=
  hleft.append hright (List.forall_mem_append.2 ⟨hleftStands, hstands⟩)
    (fun hlast => absurd hlast hbrace) (by simp)

/-- What a source that parses falls into stands, and makes its nodes at any place. -/
theorem exists_row_of_parse {source : String} {nodes : List Node} (h : parse source = .ok nodes) :
    ∃ row, Segmented source.toList row ∧ (∀ segment ∈ row, segment.Stands) ∧
      ∀ place, ∃ moved, Derivation place row moved ∧ Node.allUnplaced moved = Node.allUnplaced nodes := by
  obtain ⟨row, hrow, hdraft⟩ := parseText_eq_ok_iff.1 (parse_eq_ok_iff.1 h)
  exact ⟨row, hrow, Draft.stands_of_segments hrow hdraft, (Draft.segments_eq_ok_iff_derivation.1 hdraft).moved⟩

theorem parse_of_derivation {source : List Char} {row : List Segment} {nodes : List Node}
    (hrow : Segmented source row) (h : Derivation 0 row nodes) : parse (String.ofList source) = .ok nodes := by
  rw [parse_eq_ok_iff, String.toList_ofList]
  exact parseText_eq_ok_iff.2 ⟨row, hrow, Draft.segments_eq_ok_iff_derivation.2 h⟩

/-! ### Blocks -/

/-- The body of the tag that closes a block, with blanks around the name. -/
def closingBody (name : String) : List Char :=
  ' ' :: (name.toList ++ [' '])

/-- The text of a block: the tag that opens it, what stands inside, and the tag that closes it. -/
def blockText (kind : TagKind) (head : List Char) (name : String) (inside : List Char) : String :=
  String.ofList ((Segment.tag kind head).raw ++ (inside ++ (Segment.tag .endBlock (closingBody name)).raw))

def inverseMarkers : List (List Char) :=
  [['{', '{', '^', '}', '}'], ['{', '{', 'e', 'l', 's', 'e', '}', '}']]

/-- Two tags that stand, of which one opens a block with a call and the other closes it. -/
structure BlockTags (kind : TagKind) (head : List Char) (name : String) (call : Call) (inverted : Bool) :
    Prop where
  opening : (Segment.tag kind head).Stands
  opens : (Segment.tag kind head).Opens 0 call name inverted
  closing : (Segment.tag .endBlock (closingBody name)).Stands
  closes : (Segment.tag .endBlock (closingBody name)).Closes name

theorem exists_tag_of_mem_inverseMarkers {marker : List Char} (h : marker ∈ inverseMarkers) :
    ∃ kind body, marker = (Segment.tag kind body).raw ∧ (Segment.tag kind body).Stands ∧
      (Segment.tag kind body).Divides := by
  rcases List.mem_pair.1 h with rfl | rfl
  · have hread : Segment.read? ((Segment.tag .inverse []).raw ++ []) = some (.tag .inverse []) := rfl
    exact ⟨.inverse, [], rfl, Segment.stands_of_read_tag .nil hread, .caret rfl⟩
  · have hpaired : Paired ['e', 'l', 's', 'e'] := paired_of_trim (by decide)
    have hread : Segment.read? ((Segment.tag .escaped ['e', 'l', 's', 'e']).raw ++ []) =
        some (.tag .escaped ['e', 'l', 's', 'e']) := rfl
    exact ⟨.escaped, _, rfl, Segment.stands_of_read_tag hpaired hread, .word rfl⟩

/-- Two sources that parse become the parts of a block, between a tag that opens it, a marker and a
tag that closes it. -/
theorem parse_dividedBlock_of_tags {kind : TagKind} {head closer : List Char} {name : String} {call : Call}
    {inverted : Bool} (hopening : (Segment.tag kind head).Stands)
    (hopens : (Segment.tag kind head).Opens 0 call name inverted)
    (hclosing : (Segment.tag .endBlock closer).Stands) (hcloses : (Segment.tag .endBlock closer).Closes name)
    {first second : String} {program inverse : List Node} (hfirst : parse first = .ok program)
    (hsecond : parse second = .ok inverse) (hfirstBrace : first.toList.getLast? ≠ some '{')
    (hsecondBrace : second.toList.getLast? ≠ some '{') {marker : List Char} (hmarker : marker ∈ inverseMarkers) :
    ∃ nodes,
      parse (String.ofList ((Segment.tag kind head).raw ++
        (first.toList ++ (marker ++ (second.toList ++ (Segment.tag .endBlock closer).raw))))) = .ok nodes ∧
      Node.allUnplaced nodes = [(Node.ofParts call inverted program (some inverse)).unplaced] := by
  obtain ⟨markerKind, body, rfl, hmarkerStands, hdivides⟩ := exists_tag_of_mem_inverseMarkers hmarker
  obtain ⟨firstRow, hfirstRow, hfirstStands, hfirstMoved⟩ := exists_row_of_parse hfirst
  obtain ⟨secondRow, hsecondRow, hsecondStands, hsecondMoved⟩ := exists_row_of_parse hsecond
  obtain ⟨program', hprogram, hsameProgram⟩ := hfirstMoved (0 + byteSize (Segment.tag kind head).raw)
  obtain ⟨inverse', hinverse, hsameInverse⟩ := hsecondMoved
    (0 + rowSize (.tag kind head :: (firstRow ++ [.tag markerKind body])))
  have hend := Segmented.cons_tag hclosing .nil
  rw [List.append_nil] at hend
  have hendStands := List.forall_mem_singleton.2 hclosing
  have hbehind := (hsecondRow.append_tag hend hsecondStands hendStands hsecondBrace).cons_tag hmarkerStands
  have hbehindStands :=
    List.forall_mem_cons.2 ⟨hmarkerStands, List.forall_mem_append.2 ⟨hsecondStands, hendStands⟩⟩
  have hwhole := (hfirstRow.append_tag hbehind hfirstStands hbehindStands hfirstBrace).cons_tag hopening
  have hparse := parse_of_derivation hwhole (.dividedBlock hopens hprogram hdivides hinverse hcloses (.nil _))
  refine ⟨_, hparse, ?_⟩
  rw [Node.allUnplaced, Node.allUnplaced, Node.unplaced_ofParts, Node.unplaced_ofParts, Option.map_some,
    Option.map_some, hsameProgram, hsameInverse]

namespace BlockTags

variable {kind : TagKind} {head : List Char} {name : String} {call : Call} {inverted : Bool}

theorem parse_block (h : BlockTags kind head name call inverted) {inside : String} {program : List Node}
    (hinside : parse inside = .ok program) (hbrace : inside.toList.getLast? ≠ some '{') :
    ∃ nodes, parse (blockText kind head name inside.toList) = .ok nodes ∧
      Node.allUnplaced nodes = [(Node.ofParts call inverted program none).unplaced] := by
  obtain ⟨row, hrow, hstands, hmoved⟩ := exists_row_of_parse hinside
  obtain ⟨moved, hderivation, hsame⟩ := hmoved (0 + byteSize (Segment.tag kind head).raw)
  have hclosing := Segmented.cons_tag h.closing .nil
  rw [List.append_nil] at hclosing
  have hclosingStands := List.forall_mem_singleton.2 h.closing
  have hwhole := (hrow.append_tag hclosing hstands hclosingStands hbrace).cons_tag h.opening
  refine ⟨_, parse_of_derivation hwhole (.block h.opens hderivation h.closes (.nil _)), ?_⟩
  rw [Node.allUnplaced, Node.allUnplaced, Node.unplaced_ofParts, Node.unplaced_ofParts, hsame]

theorem parse_dividedBlock (h : BlockTags kind head name call inverted) {first second : String}
    {program inverse : List Node} (hfirst : parse first = .ok program) (hsecond : parse second = .ok inverse)
    (hfirstBrace : first.toList.getLast? ≠ some '{') (hsecondBrace : second.toList.getLast? ≠ some '{')
    {marker : List Char} (hmarker : marker ∈ inverseMarkers) :
    ∃ nodes, parse (blockText kind head name (first.toList ++ (marker ++ second.toList))) = .ok nodes ∧
      Node.allUnplaced nodes = [(Node.ofParts call inverted program (some inverse)).unplaced] := by
  rw [blockText, List.append_assoc, List.append_assoc]
  exact parse_dividedBlock_of_tags h.opening h.opens h.closing h.closes hfirst hsecond hfirstBrace hsecondBrace
    hmarker

end BlockTags

/-! ### Heads of blocks -/

theorem Call.trim_ne_nil_of_ofBody {place : Nat} {body : List Char} {call : Call}
    (h : Call.ofBody place body = .ok call) : trim body ≠ [] := by
  intro htrim
  obtain ⟨first, others, -, hrow, -⟩ := Call.ofBody_eq_ok_iff.1 h
  obtain ⟨left, right, hbody, hleft, hright⟩ := exists_of_trim body
  have hblank : ∀ char ∈ body, isBlank char = true := by
    rw [hbody, htrim]
    exact List.forall_mem_append.2 ⟨hleft, hright⟩
  have hempty : Word.Row place (body ++ []) [] := Word.Row.blanks hblank .nil
  rw [List.append_nil] at hempty
  cases hempty.unique hrow

/-- A call that is read from the body of a tag has both kinds of opening tags, if its head is a
path. -/
theorem exists_blockTags {head : List Char} {place : Nat} {call : Call} {path : Path}
    (hsegment : (segments (Segment.tag .block head).raw).all = .ok [.tag .block head])
    (hcall : Call.ofBody place head = .ok call) (hpath : call.head = .path path) :
    (∃ moved, BlockTags .block head path.text moved false ∧ moved.unplaced = call.unplaced) ∧
      ∃ moved, BlockTags .inverse head path.text moved true ∧ moved.unplaced = call.unplaced := by
  have hopening : (Segment.tag .block head).Stands := by
    refine (segments_all_eq_ok_iff.1 hsegment).stands ?_ _ List.mem_cons_self
    rintro _ _ hmem
    obtain ⟨-, rfl⟩ := Segment.tag.inj (List.mem_singleton.1 hmem)
    exact Call.paired_of_ofBody hcall
  have hprintable : call.Printable (TagKind.closer .block) := Call.printable_of_ofBody hopening.2 hcall
  have hname : Word.IsName path.text.toList := Call.isName_of_ofBody hcall hpath
  have hspaced : Word.spaced [⟨none, path.text, false, 0⟩] = closingBody path.text := by
    simp [Word.spaced, Word.raw_bare, closingBody]
  have hclosing : (Segment.tag .endBlock (closingBody path.text)).Stands := by
    have hstands := hprintable.stands_end
    rwa [hpath, Expr.toWord, hspaced] at hstands
  have hcloses : (Segment.tag .endBlock (closingBody path.text)).Closes path.text := by
    have htrim : trim (closingBody path.text) = path.text.toList := hspaced ▸ Word.trim_spaced_bare hname 0
    have hcloses := Segment.Closes.tag (closingBody path.text)
    rwa [htrim, String.ofList_toList] at hcloses
  constructor
  · obtain ⟨moved, hmoved, hsame⟩ := Call.ofBody_moved hcall (0 + byteSize (TagKind.opener .block))
    have hhead := (Call.mk.inj hsame).1.trans hpath
    exact ⟨moved, ⟨hopening, .plain hmoved hhead, hclosing, hcloses⟩, hsame⟩
  · obtain ⟨moved, hmoved, hsame⟩ := Call.ofBody_moved hcall (0 + byteSize (TagKind.opener .inverse))
    have hhead := (Call.mk.inj hsame).1.trans hpath
    have hinverted : (Segment.tag .inverse head).Stands := ⟨by simp [TagKind.Opens], hopening.2⟩
    have hne := Call.trim_ne_nil_of_ofBody hcall
    exact ⟨moved, ⟨hinverted, .inverted hne hmoved hhead, hclosing, hcloses⟩, hsame⟩

/-- Two sources parse to the same nodes up to the places of calls, and compile to the same
operations. -/
structure Alike (left right : String) : Prop where
  parsed : ∃ nodes others, parse left = .ok nodes ∧ parse right = .ok others ∧
    Node.allUnplaced nodes = Node.allUnplaced others
  compiled : ∀ options, ∃ template, Template.compile left options = .ok template ∧
    Template.compile right options = .ok template

theorem Alike.of_parsed {left right : String} {common : List Node}
    (hleft : ∃ nodes, parse left = .ok nodes ∧ Node.allUnplaced nodes = common)
    (hright : ∃ nodes, parse right = .ok nodes ∧ Node.allUnplaced nodes = common) : Alike left right := by
  obtain ⟨nodes, hnodes, hsame⟩ := hleft
  obtain ⟨others, hothers, hsame'⟩ := hright
  refine ⟨⟨nodes, others, hnodes, hothers, hsame.trans hsame'.symm⟩, fun options => ?_⟩
  refine ⟨_, Template.compile_of_parse hnodes options, ?_⟩
  rw [Template.compile_of_parse hothers options, ← compileNodes_allUnplaced options nodes,
    ← compileNodes_allUnplaced options others, hsame, hsame']

/-- An inverted block with a marker is the plain block with the two parts exchanged, and one without
a marker is the plain block with its part behind a marker. It does not matter which marker stands in
a block. -/
theorem alike_inverted_block {head : List Char} {place : Nat} {call : Call} {path : Path}
    {first second : String} {firstNodes secondNodes : List Node}
    (hsegment : (segments (Segment.tag .block head).raw).all = .ok [.tag .block head])
    (hcall : Call.ofBody place head = .ok call) (hpath : call.head = .path path)
    (hfirst : parse first = .ok firstNodes) (hsecond : parse second = .ok secondNodes)
    (hfirstBrace : first.toList.getLast? ≠ some '{') (hsecondBrace : second.toList.getLast? ≠ some '{') :
    ∀ marker ∈ inverseMarkers, ∀ other ∈ inverseMarkers,
      Alike (blockText .inverse head path.text (first.toList ++ (marker ++ second.toList)))
        (blockText .block head path.text (second.toList ++ (other ++ first.toList))) ∧
      Alike (blockText .inverse head path.text first.toList)
        (blockText .block head path.text (other ++ first.toList)) := by
  intro marker hmarker other hother
  obtain ⟨⟨plain, hplain, hsamePlain⟩, inverted, hinverted, hsameInverted⟩ :=
    exists_blockTags hsegment hcall hpath
  have hempty : parse "" = .ok [] := rfl
  constructor
  · refine .of_parsed (hinverted.parse_dividedBlock hfirst hsecond hfirstBrace hsecondBrace hmarker) ?_
    obtain ⟨nodes, hnodes, hsame⟩ := hplain.parse_dividedBlock hsecond hfirst hsecondBrace hfirstBrace hother
    refine ⟨nodes, hnodes, ?_⟩
    rw [hsame, Node.ofParts, Node.ofParts, Node.unplaced, Node.unplaced, hsamePlain, hsameInverted]
    rfl
  · refine .of_parsed (hinverted.parse_block hfirst hfirstBrace) ?_
    obtain ⟨nodes, hnodes, hsame⟩ := hplain.parse_dividedBlock hempty hfirst (by decide) hfirstBrace hother
    refine ⟨nodes, hnodes, ?_⟩
    rw [hsame, Node.ofParts, Node.ofParts, Node.unplaced, Node.unplaced, hsamePlain, hsameInverted]
    rfl

/-- A block with an argument, a nested block in its first part and a marker of each kind. -/
theorem alike_inverted_block_nested :
    Alike (blockText .inverse "p 1".toList "p" ("a\x7b\x7b#q\x7d\x7d\x7b\x7b^\x7d\x7d\x7b\x7b/q\x7d\x7d".toList ++
        (['{', '{', 'e', 'l', 's', 'e', '}', '}'] ++ "b".toList)))
      (blockText .block "p 1".toList "p" ("b".toList ++
        (['{', '{', '^', '}', '}'] ++ "a\x7b\x7b#q\x7d\x7d\x7b\x7b^\x7d\x7d\x7b\x7b/q\x7d\x7d".toList))) := by
  have hcall : Call.ofBody 3 "p 1".toList =
      .ok ⟨.path ⟨"p", 0, false, ["p"]⟩, [.literal (.number "1")], [], ⟨3, 6⟩⟩ := rfl
  have hfirst : parse "a\x7b\x7b#q\x7d\x7d\x7b\x7b^\x7d\x7d\x7b\x7b/q\x7d\x7d" =
      .ok [.content "a", .block ⟨.path ⟨"q", 0, false, ["q"]⟩, [], [], ⟨4, 5⟩⟩ [] (some [])] := rfl
  have hsecond : parse "b" = .ok [.content "b"] := rfl
  have hblocks := alike_inverted_block (by decide) hcall rfl hfirst hsecond (by decide) (by decide)
  exact (hblocks _ (by decide) _ (by decide)).1

end Stencil
