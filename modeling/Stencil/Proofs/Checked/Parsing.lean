import Stencil.Proofs.Checked.Calls
import Stencil.Proofs.Markup.Derivation

/-!
# Parsing by places

A template can be parsed from its tokens, with a slice for each text, comment and body. Together
with the readers of tokens, words and calls this is a parser that works on byte places only and
panics at the first slice that does not bound a part of the template. It never does: it comes to the
nodes, or to the error, of the parser that takes the template apart character by character.
-/

namespace Stencil

/-! ### Tags -/

def openBlockAt (source : List Char) (draft : Draft) (inverted : Bool) (opener body : Span) : Checked Draft := do
  let call ← callAt source body
  match call.head with
  | .path path =>
    return { draft with blocks := ⟨call, path.text, inverted, opener.start, [], none⟩ :: draft.blocks }
  | .literal _ =>
    let text ← slice source body.start body.stop
    refuse source (.unexpectedToken (String.ofList (trim text))) body.start

def tagAt (source : List Char) (draft : Draft) (kind : TagKind) (opener body : Span) : Checked Draft := do
  let text ← slice source body.start body.stop
  let mustache (escaped : Bool) : Checked Draft := do
    let call ← callAt source body
    return draft.add (.mustache call escaped)
  match kind with
  | .escaped =>
    if trim text = ['e', 'l', 's', 'e'] then raise source (draft.startInverse opener.start) else mustache true
  | .unescaped => mustache false
  | .ampersand => mustache false
  | .inverse =>
    if trim text = [] then raise source (draft.startInverse opener.start)
    else openBlockAt source draft true opener body
  | .block => openBlockAt source draft false opener body
  | .endBlock => raise source (draft.closeBlock opener.start (String.ofList (trim text)))
  | .inclusion => do
    let node ← inclusionAt source body
    return draft.add node

section

variable {source text : List Char} {draft : Draft} {opener body : Span}

theorem openBlockAt_agrees (hbody : slice source body.start body.stop = .ok text) (inverted : Bool) :
    Agrees source Eq (openBlockAt source draft inverted opener body)
      (draft.openBlock inverted opener.start body.start text) := by
  rw [openBlockAt, Draft.openBlock]
  refine (callAt_agrees hbody).bind ?_
  rintro call _ rfl
  cases call.head with
  | path path => exact .done rfl
  | literal literal =>
    obtain ⟨hstands, hstop⟩ := slice_eq_ok_iff.1 hbody
    exact .slice_bind hstands hstop (.refuse (by simp) hstands.start)

theorem Draft.startInverse_agrees (hplace : IsBoundary source opener.start) :
    Agrees source Eq (raise source (draft.startInverse opener.start)) (draft.startInverse opener.start) := by
  refine raise_agrees fun fault hfault => ?_
  rw [Draft.startInverse] at hfault
  split at hfault
  · split at hfault
    · cases hfault
    · obtain rfl := Except.error.inj hfault
      exact ⟨by simp, hplace⟩
  · obtain rfl := Except.error.inj hfault
    exact ⟨by simp, hplace⟩

theorem Draft.closeBlock_agrees (hplace : IsBoundary source opener.start) (name : String) :
    Agrees source Eq (raise source (draft.closeBlock opener.start name)) (draft.closeBlock opener.start name) := by
  refine raise_agrees fun fault hfault => ?_
  rw [Draft.closeBlock] at hfault
  split at hfault
  · obtain rfl := Except.error.inj hfault
    exact ⟨by simp, hplace⟩
  · split at hfault
    · cases hfault
    · obtain rfl := Except.error.inj hfault
      exact ⟨by simp, hplace⟩

theorem tagAt_agrees {kind : TagKind} (hopener : IsBoundary source opener.start)
    (hplace : body.start = opener.start + byteSize kind.opener)
    (hbody : slice source body.start body.stop = .ok text) :
    Agrees source Eq (tagAt source draft kind opener body) (draft.tag opener.start kind text) := by
  have hmustache : ∀ escaped : Bool, Agrees source Eq
      (callAt source body >>= fun call => return draft.add (.mustache call escaped))
      ((Call.ofBody body.start text).map fun call => draft.add (.mustache call escaped)) :=
    fun escaped => (callAt_agrees hbody).map fun _ _ => congrArg fun call => draft.add (.mustache call escaped)
  rw [tagAt.eq_def, Draft.tag.eq_def, ← hplace, hbody]
  cases kind with
  | escaped =>
    by_cases helse : trim text = ['e', 'l', 's', 'e']
    · simp only [bind, Except.bind, helse, if_true]
      exact Draft.startInverse_agrees hopener
    · simp only [bind, Except.bind, if_neg helse]
      exact hmustache true
  | unescaped => exact hmustache false
  | ampersand => exact hmustache false
  | block => exact openBlockAt_agrees hbody false
  | inverse =>
    by_cases hempty : trim text = []
    · simp only [bind, Except.bind, hempty, if_true]
      exact Draft.startInverse_agrees hopener
    · simp only [bind, Except.bind, if_neg hempty]
      exact openBlockAt_agrees hbody true
  | endBlock => exact Draft.closeBlock_agrees hopener _
  | inclusion => exact (inclusionAt_agrees hbody).map fun _ _ => congrArg draft.add

end

/-! ### Tokens -/

/-- Reads tokens one by one. A body or a closing marker by itself, and an opener without the two
others, are refused as well. -/
def draftAt (source : List Char) : Draft → List Token → Checked Draft
  | draft, [] => return draft
  | draft, ⟨.text, span⟩ :: rest => do
    let text ← slice source span.start span.stop
    draftAt source (draft.add (.content (String.ofList text))) rest
  | draft, ⟨.comment, span⟩ :: rest => do
    let text ← slice source span.start span.stop
    let body := (text.drop 3).dropLast.dropLast
    draftAt source (draft.add (.comment (String.ofList (Draft.commentText body)))) rest
  | draft, ⟨.opener kind, opener⟩ :: ⟨.body, body⟩ :: _ :: rest => do
    let draft ← tagAt source draft kind opener body
    draftAt source draft rest
  | _, ⟨.opener _, opener⟩ :: _ => refuseUnterminated source opener.start
  | _, token :: _ => do
    let text ← slice source token.span.start token.span.stop
    refuse source (.unexpectedToken (String.ofList text)) token.span.start

/-- Parses a template by places. -/
def parseAt (source : List Char) : Checked (List Node) := do
  let found ← lexFrom source 0
  let draft ← draftAt source {} found
  raise source draft.finish

section

variable {source : List Char}

theorem draftAt_agrees {place : Nat} {row : List Segment}
    (hstands : StandsAt source place (row.flatMap Segment.raw)) (draft : Draft) :
    Agrees source Eq (draftAt source draft (Token.placed place (row.flatMap Segment.pieces)))
      (Draft.segments place draft row) := by
  induction row generalizing place draft with
  | nil => exact .done rfl
  | cons segment row ih =>
    rw [List.flatMap_cons] at hstands
    have hrest := ih hstands.right
    rw [List.flatMap_cons, Token.placed_append, Segment.flatMap_pieces, Draft.segments]
    cases segment with
    | text content =>
      refine .slice_bind hstands.left rfl ?_
      exact hrest _
    | comment body =>
      have hbody : ((Segment.comment body).raw.drop 3).dropLast.dropLast = body := by
        simp [Segment.raw]
      refine .slice_bind hstands.left rfl ?_
      rw [hbody]
      exact hrest _
    | tag kind body =>
      have hraw := hstands.left
      rw [Segment.raw, List.append_assoc] at hraw
      refine Agrees.bind (tagAt_agrees hraw.start rfl (hraw.right.left.slice_eq rfl)) ?_
      rintro next _ rfl
      exact hrest next

/-- Each open block stands behind a part of the row. -/
theorem Draft.Holds.exists_place {row : List Segment} {draft : Draft} (h : Draft.Holds row draft) :
    ∀ block ∈ draft.blocks, ∃ left right, row = left ++ right ∧ block.place = rowSize left := by
  intro block hblock
  induction h with
  | outside _ => simp at hblock
  | @program row _ _ _ _ _ _ _ _ _ _ _ ih =>
    rcases List.mem_cons.1 hblock with rfl | hblock
    · exact ⟨row, _, rfl, rfl⟩
    · obtain ⟨left, right, rfl, hplace⟩ := ih hblock
      exact ⟨left, _, List.append_assoc _ _ _, hplace⟩
  | @inverse row _ _ _ _ _ _ _ _ _ _ _ _ _ _ _ _ ih =>
    rcases List.mem_cons.1 hblock with rfl | hblock
    · exact ⟨row, _, rfl, rfl⟩
    · obtain ⟨left, right, rfl, hplace⟩ := ih hblock
      exact ⟨left, _, List.append_assoc _ _ _, hplace⟩

theorem lexFrom_tokens (source : List Char) :
    Agrees source (fun found row => found = Token.placed 0 (row.flatMap Segment.pieces)) (lexFrom source 0)
      (segments source).all := by
  have hlexed := lexFrom_agrees (slice_whole source)
  rw [tokensOf] at hlexed
  change Agrees source Eq _ ((segments source).all.map _) at hlexed
  generalize lexFrom source 0 = checked, (segments source).all = reader at hlexed ⊢
  cases reader with
  | error fault =>
    cases hlexed with
    | refused hplace => exact .refused hplace
  | ok row =>
    cases hlexed with
    | done hfound => exact .done hfound

/-- A template is parsed by places as it is parsed from the text. -/
theorem parseAt_agrees (source : List Char) : Agrees source Eq (parseAt source) (parseText source) := by
  rw [parseAt, parseText]
  refine (lexFrom_tokens source).with_reader.bind ?_
  rintro _ row ⟨rfl, hrow⟩
  have hstands : StandsAt source 0 (row.flatMap Segment.raw) := by
    rw [(segments_all_eq_ok_iff.1 hrow).flatMap_raw]
    exact .whole source
  refine (draftAt_agrees hstands {}).with_reader.bind ?_
  rintro draft _ ⟨rfl, hdraft⟩
  have hholds : Draft.Holds ([] ++ row) draft := (Draft.Holds.outside (.nil 0)).segments hdraft
  refine raise_agrees fun fault hfault => ?_
  rw [Draft.finish] at hfault
  split at hfault
  · next block outer hblocks =>
    obtain rfl := Except.error.inj hfault
    obtain ⟨left, right, rfl, hplace⟩ := hholds.exists_place block (by simp [hblocks])
    refine ⟨by simp, ?_⟩
    rw [List.flatMap_append] at hstands
    have hstop := hstands.left.stop
    rwa [Nat.zero_add, ← rowSize, ← hplace] at hstop
  · cases hfault

end

/-! ### Spans -/

theorem StandsAt.placed_bounds {source : List Char} {place : Nat} {pieces : List (TokenKind × List Char)}
    (h : StandsAt source place (pieces.flatMap Prod.snd)) :
    ∀ token ∈ Token.placed place pieces, token.span.Bounds source := by
  induction pieces generalizing place with
  | nil => simp [Token.placed]
  | cons piece pieces ih =>
    obtain ⟨kind, characters⟩ := piece
    rw [List.flatMap_cons] at h
    intro token htoken
    rcases List.mem_cons.1 htoken with rfl | htoken
    · exact h.left.bounds
    · exact ih h.right token htoken

theorem Segment.Makes.exists_span {place : Nat} {segment : Segment} {node : Node} {call : Call}
    (h : segment.Makes place node) (hcall : node.call? = some call) :
    ∃ kind body, segment = .tag kind body ∧
      call.span = ⟨place + byteSize kind.opener, place + byteSize kind.opener + byteSize body⟩ := by
  obtain ⟨kind, body, rfl, hbody⟩ := h.exists_body hcall
  exact ⟨kind, body, rfl, Call.span_of_ofBody hbody⟩

theorem call_bounds {source : String} {nodes : List Node} (h : parse source = .ok nodes) {node inner : Node}
    (hnode : node ∈ nodes) (hinner : inner.Within node) {call : Call} (hcall : inner.call? = some call) :
    call.span.Bounds source.toList := by
  obtain ⟨row, hrow, hdraft⟩ := parseText_eq_ok_iff.1 (parse_eq_ok_iff.1 h)
  obtain ⟨left, segment, right, rfl, hmakes⟩ :=
    (Draft.segments_eq_ok_iff_derivation.1 hdraft).exists_makes hnode hinner
  obtain ⟨kind, body, rfl, hspan⟩ := hmakes.exists_span hcall
  have hstands : StandsAt source.toList 0 ((left ++ .tag kind body :: right).flatMap Segment.raw) := by
    rw [hrow.flatMap_raw]
    exact .whole _
  rw [List.flatMap_append, List.flatMap_cons] at hstands
  have hraw := hstands.right.left
  rw [Segment.raw, List.append_assoc] at hraw
  rw [hspan]
  exact hraw.right.left.bounds

theorem token_bounds {source : String} {found : List Token} (h : tokens source = .ok found) :
    ∀ token ∈ found, token.span.Bounds source.toList := by
  rw [tokens] at h
  cases hrow : (segments source.toList).all with
  | error fault =>
    rw [hrow] at h
    cases h
  | ok row =>
    rw [hrow] at h
    obtain rfl := Except.ok.inj h
    refine StandsAt.placed_bounds ?_
    have hraw : (row.flatMap Segment.pieces).flatMap Prod.snd = source.toList := by
      rw [List.flatMap_assoc, ← (segments_all_eq_ok_iff.1 hrow).flatMap_raw]
      simp only [Segment.flatMap_pieces]
    rw [hraw]
    exact .whole _

/-! ### The main statement -/

/-- **Parsing by places.** A slice is a panic exactly if its places do not bound a part of the text
that it is taken from. Yet the reader of tokens and the parser that take slices come to the same end
as those that do not, and so does the cursor in every part of the template. So no slice is a panic,
not even in an error. The spans of tokens and of calls bound parts of the template, and the places
of words and errors are boundaries in it. -/
theorem parse_slices (source : String) :
    (∀ text start stop, slice text start stop = .error .panic ↔ ¬Span.Bounds ⟨start, stop⟩ text) ∧
    lexFrom source.toList 0 = (tokens source).mapError .refused ∧
    parseAt source.toList = (parse source).mapError .refused ∧
    (∀ body : Span, body.Bounds source.toList → ∃ items failure,
      words body.start (body.slice source.toList) = ⟨items, failure⟩ ∧
      wordsFrom source.toList body.stop body.start = .ok ⟨items, failure.map (·.inSource source.toList)⟩ ∧
      (∀ word ∈ items, IsBoundary source.toList word.place) ∧
      ∀ fault ∈ failure, IsBoundary source.toList fault.place) ∧
    (∀ found, tokens source = .ok found → ∀ token ∈ found, token.span.Bounds source.toList) ∧
    (∀ nodes, parse source = .ok nodes → ∀ node ∈ nodes, ∀ inner : Node, inner.Within node →
      ∀ call : Call, inner.call? = some call → call.span.Bounds source.toList) ∧
    ∀ error, tokens source = .error error ∨ parse source = .error error →
      IsBoundary source.toList error.offset := by
  have hlexed := lexFrom_agrees (slice_whole source.toList)
  obtain ⟨htokens, htokensError⟩ := hlexed.eq
  obtain ⟨hparsed, hparsedError⟩ := (parseAt_agrees source.toList).eq
  rw [← tokens_eq_tokensOf] at htokens htokensError
  refine ⟨fun _ _ _ => slice_eq_panic_iff, htokens, hparsed, fun body hbody => ?_, fun _ => token_bounds,
    fun nodes hnodes node hnode inner hinner call => call_bounds hnodes hnode hinner, ?_⟩
  · obtain ⟨text, htext⟩ := exists_slice_of_bounds hbody
    obtain ⟨⟨before, after, hsource, hbefore⟩, hstop⟩ := slice_eq_ok_iff.1 htext
    have hslice : body.slice source.toList = text := by
      rw [hsource]
      obtain ⟨start, stop⟩ := body
      obtain rfl : byteSize before = start := hbefore
      obtain rfl : stop = byteSize before + byteSize text := hstop
      exact Span.slice_append before text after
    rw [hslice]
    exact ⟨_, _, rfl, wordsFrom_eq htext⟩
  · rintro error (herror | herror)
    · exact htokensError error herror
    · exact hparsedError error herror

end Stencil
