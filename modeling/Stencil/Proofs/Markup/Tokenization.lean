import Stencil.Markup.Token
import Stencil.Proofs.Markup.Closing

/-!
# The tokens of a template

The tokens of a template cover it from its start to its end. They are texts, comments and tags of
three tokens each, and each of them ends where the first of the markers stands that can end it. A
template without tokens has a first comment or tag that nothing ends, and this is where its error is
found. A parser that goes through the tokens one by one never meets a body or closing marker that no
opener leads up to, nor an opener without the two.
-/

namespace Stencil

/-! ### What tokens are -/

/-- A text, read from a place on, is cut into tokens up to another place, with the rest behind
it. -/
inductive Tokenized : Nat → List Char → List Token → Nat → List Char → Prop where
  | nil {place : Nat} {text : List Char} : Tokenized place text [] place text
  /-- A text goes on to the end or to the first two braces -/
  | text {place stop : Nat} {content rest left : List Char} {tokens : List Token} :
    content ≠ [] → ¬['{', '{'] <:+: content →
    (rest = [] ∨ ['{', '{'] <+: rest ∧ content.getLast? ≠ some '{') →
    Tokenized (place + byteSize content) rest tokens stop left →
    Tokenized place (content ++ rest) (⟨.text, place, place + byteSize content⟩ :: tokens) stop left
  /-- A comment goes on to the first marker that closes it -/
  | comment {place stop : Nat} {content closer rest left : List Char} {tokens : List Token} :
    closer = commentCloser (content ++ (closer ++ rest)) → StartsFirst closer content rest →
    Tokenized (place + byteSize (['{', '{', '!'] ++ (content ++ closer))) rest tokens stop left →
    Tokenized place (['{', '{', '!'] ++ (content ++ (closer ++ rest)))
      (⟨.comment, place, place + byteSize (['{', '{', '!'] ++ (content ++ closer))⟩ :: tokens) stop left
  /-- The body of a tag goes on to the first marker outside of strings that closes the tag -/
  | tag {place stop : Nat} {kind : TagKind} {body rest left : List Char} {tokens : List Token} :
    kind.Opens (body ++ (kind.closer ++ rest)) → EndsFirst kind.closer body rest →
    Tokenized (place + byteSize kind.opener + byteSize body + byteSize kind.closer) rest tokens stop left →
    Tokenized place (kind.opener ++ (body ++ (kind.closer ++ rest)))
      (⟨.opener kind, place, place + byteSize kind.opener⟩ ::
        ⟨.body, place + byteSize kind.opener, place + byteSize kind.opener + byteSize body⟩ ::
        ⟨.closer kind, place + byteSize kind.opener + byteSize body,
          place + byteSize kind.opener + byteSize body + byteSize kind.closer⟩ :: tokens) stop left

/-- A comment or a tag starts a text, and no marker closes it. -/
inductive Unclosed : List Char → Prop where
  | comment {text : List Char} : ¬commentCloser text <:+: text → Unclosed (['{', '{', '!'] ++ text)
  | tag {kind : TagKind} {text : List Char} :
    kind.Opens text → (∀ found, Visits text found → ¬kind.closer <+: found) → Unclosed (kind.opener ++ text)

/-- Tokens that follow one another from a place to another without a gap. -/
def Token.Contiguous : Nat → Nat → List Token → Prop
  | start, stop, [] => start = stop
  | start, stop, token :: rest =>
    token.span.start = start ∧ start ≤ token.span.stop ∧ Token.Contiguous token.span.stop stop rest

/-- Texts, comments, and bodies between the two markers of one kind of tag. -/
inductive TokenKind.Grouped : List TokenKind → Prop where
  | nil : Grouped []
  | text {rest : List TokenKind} : Grouped rest → Grouped (.text :: rest)
  | comment {rest : List TokenKind} : Grouped rest → Grouped (.comment :: rest)
  | tag {kind : TagKind} {rest : List TokenKind} :
    Grouped rest → Grouped (.opener kind :: .body :: .closer kind :: rest)

/-! ### Slices -/

theorem between_skip {low high start : Nat} {before : List Char} (h : start + byteSize before ≤ low)
    (rest : List Char) :
    between low high start (before ++ rest) = between low high (start + byteSize before) rest := by
  induction before generalizing start with
  | nil => rfl
  | cons char before ih =>
    have hchar := char.utf8Size_pos
    rw [byteSize, ← Nat.add_assoc] at h ⊢
    rw [List.cons_append, between]
    rw [if_neg (by omega), ih h]

theorem between_take {low high start : Nat} {content : List Char} (hlow : low ≤ start)
    (hhigh : start + byteSize content ≤ high) (rest : List Char) :
    between low high start (content ++ rest) =
      content ++ between low high (start + byteSize content) rest := by
  induction content generalizing start with
  | nil => rfl
  | cons char content ih =>
    rw [byteSize, ← Nat.add_assoc] at hhigh ⊢
    rw [List.cons_append, between]
    rw [if_pos (by omega), ih (by omega) hhigh, List.cons_append]

theorem between_stop {low high start : Nat} (h : high ≤ start) (rest : List Char) :
    between low high start rest = [] := by
  induction rest generalizing start with
  | nil => rfl
  | cons char rest ih =>
    have hchar := char.utf8Size_pos
    rw [between]
    rw [if_neg (by omega), ih (by omega)]

theorem Span.slice_append (before content after : List Char) :
    Span.slice ⟨byteSize before, byteSize before + byteSize content⟩ (before ++ (content ++ after)) =
      content := by
  rw [Span.slice, between_skip (by simp), between_take (by simp) (by simp), between_stop (by simp),
    List.append_nil]

/-! ### What tokens have in common -/

theorem not_prefix_of_text {content rest : List Char} (hne : content ≠ [])
    (hplain : ¬['{', '{'] <:+: content)
    (hrest : rest = [] ∨ ['{', '{'] <+: rest ∧ content.getLast? ≠ some '{') :
    ¬['{', '{'] <+: content ++ rest := by
  rintro ⟨after, hafter⟩
  rcases content with _ | ⟨first, _ | ⟨second, content⟩⟩
  · exact hne rfl
  · obtain ⟨rfl, hbrace⟩ := List.cons.inj hafter
    rcases hrest with rfl | ⟨-, hlast⟩
    · simp at hbrace
    · exact hlast rfl
  · obtain ⟨rfl, hsecond⟩ := List.cons.inj hafter
    obtain ⟨rfl, -⟩ := List.cons.inj hsecond
    exact hplain ⟨[], content, rfl⟩

namespace Tokenized

variable {place stop : Nat} {text left : List Char} {tokens : List Token}

theorem contiguous (h : Tokenized place text tokens stop left) : Token.Contiguous place stop tokens := by
  induction h with
  | nil => rfl
  | text _ _ _ _ ih => exact ⟨rfl, Nat.le_add_right _ _, ih⟩
  | comment _ _ _ ih => exact ⟨rfl, Nat.le_add_right _ _, ih⟩
  | tag _ _ _ ih =>
    exact ⟨rfl, Nat.le_add_right _ _, rfl, Nat.le_add_right _ _, rfl, Nat.le_add_right _ _, ih⟩

theorem grouped (h : Tokenized place text tokens stop left) : TokenKind.Grouped (tokens.map Token.kind) := by
  induction h with
  | nil => exact .nil
  | text _ _ _ _ ih => exact .text ih
  | comment _ _ _ ih => exact .comment ih
  | tag _ _ _ ih => exact .tag ih

theorem textsApart (h : Tokenized place text tokens stop left) :
    tokens.IsChain fun token next => ¬(token.kind = .text ∧ next.kind = .text) := by
  induction h with
  | nil => exact .nil
  | @text place stop content rest left tokens _ _ hrest htokens ih =>
    refine List.isChain_cons.2 ⟨fun next hnext => ?_, ih⟩
    rintro ⟨-, hkind⟩
    cases htokens with
    | nil => simp at hnext
    | text hother hplain hafter _ =>
      have hstart := not_prefix_of_text hother hplain hafter
      rcases hrest with hend | ⟨hbraces, -⟩
      · exact hother (List.append_eq_nil_iff.1 hend).1
      · exact hstart hbraces
    | comment | tag =>
      obtain rfl := Option.some.inj hnext
      simp at hkind
  | comment _ _ _ ih => exact List.isChain_cons.2 ⟨by simp, ih⟩
  | tag _ _ _ ih =>
    exact List.isChain_cons.2 ⟨by simp, List.isChain_cons.2 ⟨by simp, List.isChain_cons.2 ⟨by simp, ih⟩⟩⟩

theorem slices (h : Tokenized place text tokens stop left) {source : List Char} (before : List Char)
    (hsource : source = before ++ text) (hplace : byteSize before = place) :
    text = tokens.flatMap (·.span.slice source) ++ left := by
  induction h generalizing before with
  | nil => rfl
  | @text place stop content rest left tokens _ _ _ _ ih =>
    have hrest := ih (before ++ content) (by simp [hsource]) (by simp [hplace])
    have hslice := Span.slice_append before content rest
    rw [List.flatMap_cons, List.append_assoc, ← hrest, hsource, ← hplace, hslice]
  | @comment place stop content closer rest left tokens _ _ _ ih =>
    have hsplit : ['{', '{', '!'] ++ (content ++ (closer ++ rest)) =
        ['{', '{', '!'] ++ (content ++ closer) ++ rest := by simp
    rw [hsplit] at hsource ⊢
    generalize ['{', '{', '!'] ++ (content ++ closer) = raw at *
    have hrest := ih (before ++ raw) (by simp [hsource]) (by simp [hplace])
    have hslice := Span.slice_append before raw rest
    rw [List.flatMap_cons, List.append_assoc, ← hrest, hsource, ← hplace, hslice]
  | @tag place stop kind body rest left tokens _ _ _ ih =>
    have hrest := ih (before ++ (kind.opener ++ (body ++ kind.closer))) (by simp [hsource])
      (by simp [hplace, Nat.add_assoc])
    have hopener := Span.slice_append before kind.opener (body ++ (kind.closer ++ rest))
    have hbody := Span.slice_append (before ++ kind.opener) body (kind.closer ++ rest)
    have hcloser := Span.slice_append (before ++ kind.opener ++ body) kind.closer rest
    simp only [byteSize_append, List.append_assoc, ← Nat.add_assoc, hplace] at hopener hbody hcloser
    simp only [List.flatMap_cons, List.append_assoc]
    rw [← hrest, hsource, hopener, hbody, hcloser]

end Tokenized

/-! ### What can start a text -/

theorem start_cases (text : List Char) :
    ¬['{', '{'] <+: text ∨ (∃ body, text = ['{', '{', '!'] ++ body) ∨
      ∃ kind body, TagKind.Opens kind body ∧ text = kind.opener ++ body := by
  by_cases hbraces : ['{', '{'] <+: text
  · obtain ⟨after, rfl⟩ := hbraces
    by_cases hcomment : after.head? = some '!'
    · obtain ⟨body, rfl⟩ := List.head?_eq_some_iff.1 hcomment
      exact .inr (.inl ⟨body, rfl⟩)
    · refine .inr (.inr ⟨_, _, TagKind.opens_of_ofText rfl hcomment, ?_⟩)
      simp only [TagKind.opener, List.cons_append, List.nil_append, ← TagKind.ofText_eq]
  · exact .inl hbraces

theorem Segment.read?_bang (text : List Char) :
    Segment.read? (['{', '{', '!'] ++ text) = (commentBody text).map .comment :=
  rfl

theorem braces_prefix_cons {char : Char} {rest : List Char} :
    ['{', '{'] <+: char :: rest ↔ char = '{' ∧ rest.head? = some '{' := by
  cases rest <;> simp [eq_comm]

theorem braceFree_iff {text : List Char} : BraceFree text ↔ ¬['{', '{'] <:+: text := by
  induction text with
  | nil => simp [BraceFree, textBeforeTag]
  | cons char rest ih =>
    rw [BraceFree, textBeforeTag, List.infix_cons_iff, not_or, ← ih, braces_prefix_cons]
    split
    · next hopen => simp [hopen]
    · next hplain => simp [hplain, BraceFree]

theorem Segment.read?_plain {text : List Char} (hne : text ≠ []) (h : ¬['{', '{'] <+: text) :
    Segment.read? text = some (.text (textBeforeTag text)) ∧ textBeforeTag text ≠ [] := by
  obtain ⟨char, rest, rfl⟩ := List.exists_cons_of_ne_nil hne
  rw [braces_prefix_cons] at h
  rw [textBeforeTag, if_neg h, Segment.read?, if_neg h]
  exact ⟨rfl, by simp⟩

/-! ### Scanning is cutting into tokens -/

theorem Token.placed_append (place : Nat) (left right : List (TokenKind × List Char)) :
    Token.placed place (left ++ right) =
      Token.placed place left ++ Token.placed (place + byteSize (left.flatMap Prod.snd)) right := by
  induction left generalizing place with
  | nil => rfl
  | cons piece left ih =>
    rw [List.cons_append, Token.placed, Token.placed, ih, List.flatMap_cons, byteSize_append, Nat.add_assoc]
    rfl

theorem Segment.flatMap_pieces (segment : Segment) : segment.pieces.flatMap Prod.snd = segment.raw := by
  cases segment <;> simp [Segment.pieces, Segment.raw]

/-- The first segment of a text is cut from it, or else nothing closes what starts the text. -/
theorem Segment.cut_or_unclosed {text : List Char} (hne : text ≠ []) :
    (∃ segment rest, text = segment.raw ++ rest ∧ Segment.read? text = some segment ∧
      ∀ {place tokens stop left}, Tokenized (place + byteSize segment.raw) rest tokens stop left →
        Tokenized place text (Token.placed place segment.pieces ++ tokens) stop left) ∨
    Segment.read? text = none ∧ Unclosed text := by
  rcases start_cases text with hplain | ⟨body, rfl⟩ | ⟨kind, body, hopens, rfl⟩
  · obtain ⟨hread, hcontent⟩ := Segment.read?_plain hne hplain
    obtain ⟨rest, hrest⟩ := exists_of_textBeforeTag text
    have hbraces := braceFree_iff.1 (braceFree_textBeforeTag text)
    generalize textBeforeTag text = content at *
    subst hrest
    refine .inl ⟨.text content, rest, rfl, hread, fun htokens => .text hcontent hbraces ?_ htokens⟩
    obtain ⟨hstops, hlast⟩ := textBeforeTag_stops (Segment.textBeforeTag_of_read hread)
    rcases hstops with rfl | ⟨after, rfl⟩
    · exact .inl rfl
    · exact .inr ⟨⟨after, rfl⟩, hlast (by simp)⟩
  · rw [Segment.read?_bang]
    cases hbody : commentBody body with
    | none => exact .inr ⟨rfl, .comment (commentBody_eq_none_iff.1 hbody)⟩
    | some inner =>
      obtain ⟨content, after, hafter, heq, hfirst⟩ := commentBody_eq_some_iff.1 hbody
      have hraw : (Segment.comment inner).raw = ['{', '{', '!'] ++ (content ++ commentCloser body) := by
        rw [Segment.raw, List.append_assoc, heq]
      refine .inl ⟨.comment inner, after, ?_, rfl, fun htokens => ?_⟩
      · rw [hraw, hafter]
        simp [← hafter]
      · rw [hraw] at htokens
        rw [Segment.pieces, hraw]
        generalize hcloser : commentCloser body = closer at *
        subst hafter
        exact .comment hcloser.symm hfirst htokens
  · rw [Segment.read?_opener hopens]
    cases hbody : bodyBefore kind.closer 0 body with
    | none => exact .inr ⟨rfl, .tag hopens ((bodyBefore_eq_none_iff kind.closer_head).1 hbody)⟩
    | some inner =>
      obtain ⟨after, rfl, hends⟩ := (bodyBefore_eq_some_iff kind.closer_head).1 hbody
      refine .inl ⟨.tag kind inner, after, by simp [Segment.raw], rfl, fun htokens => ?_⟩
      rw [Segment.raw, byteSize_append, byteSize_append, ← Nat.add_assoc, ← Nat.add_assoc] at htokens
      exact .tag hopens hends htokens

/-- A scan cuts a text into tokens, to its end or to where nothing closes what starts there. -/
theorem tokenized_of_scan (place : Nat) (text : List Char) :
    ∃ stop left, Tokenized place text
      (Token.placed place ((scan Segment.step 0 place text).items.flatMap Segment.pieces)) stop left ∧
      ((scan Segment.step 0 place text).failure = none ∧ left = [] ∧ stop = place + byteSize text ∨
        (scan Segment.step 0 place text).failure = some ⟨.unterminatedTag, stop⟩ ∧ Unclosed left) := by
  induction hlength : text.length using Nat.strong_induction_on generalizing place text with
  | _ length ih =>
    rcases eq_or_ne text [] with rfl | hne
    · exact ⟨place, [], .nil, .inl ⟨rfl, rfl, rfl⟩⟩
    · rcases Segment.cut_or_unclosed hne with ⟨segment, rest, rfl, hread, hcut⟩ | ⟨hread, hunclosed⟩
      · have hpos := List.length_pos_of_ne_nil (Segment.raw_ne_nil_of_read hread)
        obtain ⟨stop, left, htokens, hend⟩ := ih rest.length
          (by rw [← hlength, List.length_append]; omega) (place + byteSize segment.raw) rest rfl
        rw [scan_segment hread]
        refine ⟨stop, left, ?_, ?_⟩
        · have hplaced := Token.placed_append place segment.pieces
            ((scan Segment.step 0 (place + byteSize segment.raw) rest).items.flatMap Segment.pieces)
          rw [Segment.flatMap_pieces] at hplaced
          have hcut := hcut htokens
          rw [← hplaced] at hcut
          exact hcut
        · rw [byteSize_append, ← Nat.add_assoc]
          exact hend
      · obtain ⟨char, rest, rfl⟩ := List.exists_cons_of_ne_nil hne
        have hscan : scan Segment.step 0 place (char :: rest) = ⟨[], some ⟨.unterminatedTag, place⟩⟩ := by
          rw [scan, Segment.step_eq, hread]
        rw [hscan]
        exact ⟨place, _, .nil, .inr ⟨rfl, hunclosed⟩⟩

theorem Unclosed.scan_eq {text : List Char} (h : Unclosed text) (place : Nat) :
    scan Segment.step 0 place text = ⟨[], some ⟨.unterminatedTag, place⟩⟩ := by
  have hnone : Segment.read? text = none ∧ text ≠ [] := by
    cases h with
    | comment hcloser => exact ⟨by rw [Segment.read?_bang, commentBody_eq_none_iff.2 hcloser]; rfl, by simp⟩
    | @tag kind _ hopens hcloser =>
      rw [Segment.read?_opener hopens, (bodyBefore_eq_none_iff kind.closer_head).2 hcloser]
      exact ⟨rfl, by simp [TagKind.opener]⟩
  obtain ⟨char, rest, rfl⟩ := List.exists_cons_of_ne_nil hnone.2
  rw [scan, Segment.step_eq, hnone.1]

namespace Segment

theorem read?_content {content rest : List Char} (hne : content ≠ []) (hplain : ¬['{', '{'] <:+: content)
    (hrest : rest = [] ∨ ['{', '{'] <+: rest ∧ content.getLast? ≠ some '{') :
    read? (content ++ rest) = some (.text content) := by
  refine read?_eq_text hne ?_
  rcases hrest with rfl | ⟨⟨after, rfl⟩, hlast⟩
  · rw [List.append_nil]
    exact braceFree_iff.2 hplain
  · rw [textBeforeTag_append (braceFree_iff.2 hplain) fun hbrace => absurd hbrace hlast]
    exact List.append_nil content

/-- The content and the marker that closes it are those of a comment, which keeps what the marker
has before its two braces. -/
theorem exists_read?_closed {content closer rest : List Char}
    (hcloser : closer = commentCloser (content ++ (closer ++ rest))) (hfirst : StartsFirst closer content rest) :
    ∃ inner, (comment inner).raw = ['{', '{', '!'] ++ (content ++ closer) ∧
      read? ((comment inner).raw ++ rest) = some (.comment inner) := by
  obtain ⟨inner, hinner⟩ : ∃ inner, inner ++ ['}', '}'] = content ++ closer := by
    rw [hcloser, commentCloser]
    split
    · exact ⟨content ++ ['-', '-'], by simp⟩
    · exact ⟨content, rfl⟩
  have hraw : (comment inner).raw = ['{', '{', '!'] ++ (content ++ closer) := by
    rw [raw, List.append_assoc, hinner]
  have hsplit : (comment inner).raw ++ rest = ['{', '{', '!'] ++ (content ++ (closer ++ rest)) := by
    rw [hraw]
    simp
  refine ⟨inner, hraw, ?_⟩
  rw [hsplit, read?_bang, commentBody_eq_some_iff.2 ⟨content, rest, ?_, ?_, ?_⟩]
  · rfl
  · rw [← hcloser]
  · rw [← hcloser, hinner]
  · rwa [← hcloser]

theorem read?_closed {kind : TagKind} {body rest : List Char} (hopens : kind.Opens (body ++ (kind.closer ++ rest)))
    (hends : EndsFirst kind.closer body rest) : read? ((tag kind body).raw ++ rest) = some (.tag kind body) := by
  have hsplit : (tag kind body).raw ++ rest = kind.opener ++ (body ++ (kind.closer ++ rest)) := by
    simp [raw]
  rw [hsplit, read?_opener hopens, (bodyBefore_eq_some_iff kind.closer_head).2 ⟨rest, rfl, hends⟩]
  rfl

end Segment

/-- Tokens that are cut from a text are those of the segments that a scan finds in it first. -/
theorem Tokenized.scan_eq {place stop : Nat} {text left : List Char} {tokens : List Token}
    (h : Tokenized place text tokens stop left) :
    ∃ row, tokens = Token.placed place (row.flatMap Segment.pieces) ∧
      scan Segment.step 0 place text = ⟨row ++ (scan Segment.step 0 stop left).items,
        (scan Segment.step 0 stop left).failure⟩ := by
  have hcons : ∀ (segment : Segment) {place stop : Nat} {rest left : List Char} {row : List Segment}
      {tokens : List Token}, Segment.read? (segment.raw ++ rest) = some segment →
      tokens = Token.placed (place + byteSize segment.raw) (row.flatMap Segment.pieces) →
      scan Segment.step 0 (place + byteSize segment.raw) rest =
        ⟨row ++ (scan Segment.step 0 stop left).items, (scan Segment.step 0 stop left).failure⟩ →
      Token.placed place segment.pieces ++ tokens =
          Token.placed place ((segment :: row).flatMap Segment.pieces) ∧
        scan Segment.step 0 place (segment.raw ++ rest) =
          ⟨segment :: row ++ (scan Segment.step 0 stop left).items,
            (scan Segment.step 0 stop left).failure⟩ := by
    intro segment place stop rest left row tokens hread htokens hscan
    constructor
    · rw [List.flatMap_cons, Token.placed_append, Segment.flatMap_pieces, htokens]
    · rw [scan_segment hread, hscan]
      rfl
  induction h with
  | nil => exact ⟨[], rfl, rfl⟩
  | @text place stop content rest left tokens hne hplain hrest _ ih =>
    obtain ⟨row, htokens, hscan⟩ := ih
    exact ⟨.text content :: row, hcons (.text content) (Segment.read?_content hne hplain hrest) htokens hscan⟩
  | @comment place stop content closer rest left tokens hcloser hfirst _ ih =>
    obtain ⟨row, htokens, hscan⟩ := ih
    obtain ⟨inner, hraw, hread⟩ := Segment.exists_read?_closed hcloser hfirst
    have hsplit : ['{', '{', '!'] ++ (content ++ (closer ++ rest)) = (Segment.comment inner).raw ++ rest := by
      rw [hraw]
      simp
    rw [← hraw] at htokens hscan ⊢
    rw [hsplit]
    exact ⟨.comment inner :: row, hcons _ hread htokens hscan⟩
  | @tag place stop kind body rest left tokens hopens hends _ ih =>
    obtain ⟨row, htokens, hscan⟩ := ih
    have hsize : place + byteSize kind.opener + byteSize body + byteSize kind.closer =
        place + byteSize (Segment.tag kind body).raw := by
      simp [Segment.raw, Nat.add_assoc]
    have hsplit : kind.opener ++ (body ++ (kind.closer ++ rest)) = (Segment.tag kind body).raw ++ rest := by
      simp [Segment.raw]
    rw [hsize] at htokens hscan
    rw [hsplit]
    exact ⟨.tag kind body :: row, hcons _ (Segment.read?_closed hopens hends) htokens hscan⟩

/-! ### Parsing tokens -/

/-- Reads tokens in a row. The arguments say what comes of a body or closing marker that stands by
itself, and of an opener without a body and a closing marker behind it. -/
def Draft.ofTokens (source : List Char) (stray unfinished : Token → Except Fault Draft) :
    Draft → List Token → Except Fault Draft
  | draft, [] => .ok draft
  | draft, ⟨.text, span⟩ :: rest => do
    ofTokens source stray unfinished (← draft.segment span.start (.text (span.slice source))) rest
  | draft, ⟨.comment, span⟩ :: rest => do
    let body := ((span.slice source).drop 3).dropLast.dropLast
    ofTokens source stray unfinished (← draft.segment span.start (.comment body)) rest
  | draft, ⟨.opener kind, span⟩ :: ⟨.body, body⟩ :: _ :: rest => do
    ofTokens source stray unfinished (← draft.tag span.start kind (body.slice source)) rest
  | _, ⟨.opener kind, span⟩ :: _ => unfinished ⟨.opener kind, span⟩
  | _, token :: _ => stray token

theorem Draft.ofTokens_placed (stray unfinished : Token → Except Fault Draft) (draft : Draft)
    {source : List Char} {place : Nat} {row : List Segment} (before : List Char)
    (hsource : source = before ++ row.flatMap Segment.raw) (hplace : byteSize before = place) :
    Draft.ofTokens source stray unfinished draft (Token.placed place (row.flatMap Segment.pieces)) =
      Draft.segments place draft row := by
  induction row generalizing draft before place with
  | nil => rfl
  | cons segment row ih =>
    have hrest : ∀ next : Draft, Draft.ofTokens source stray unfinished next
        (Token.placed (place + byteSize segment.raw) (row.flatMap Segment.pieces)) =
          Draft.segments (place + byteSize segment.raw) next row := fun next =>
      ih next (before ++ segment.raw) (by simp [hsource]) (by simp [hplace])
    rw [List.flatMap_cons, Token.placed_append, Segment.flatMap_pieces, Draft.segments]
    cases segment with
    | text content =>
      have hslice := Span.slice_append before content (row.flatMap Segment.raw)
      rw [List.flatMap_cons, Segment.raw] at hsource
      rw [hplace, ← hsource] at hslice
      simp only [Segment.pieces, Token.placed, List.cons_append, List.nil_append, Draft.ofTokens, hslice,
        hrest]
    | comment body =>
      have hslice := Span.slice_append before (Segment.comment body).raw (row.flatMap Segment.raw)
      rw [List.flatMap_cons] at hsource
      rw [hplace, ← hsource] at hslice
      have hbody : ((Segment.comment body).raw.drop 3).dropLast.dropLast = body := by
        simp [Segment.raw]
      simp only [Segment.pieces, Token.placed, List.cons_append, List.nil_append, Draft.ofTokens, hslice,
        hbody, hrest]
    | tag kind body =>
      have hslice := Span.slice_append (before ++ kind.opener) body
        (kind.closer ++ row.flatMap Segment.raw)
      have hparts : before ++ kind.opener ++ (body ++ (kind.closer ++ row.flatMap Segment.raw)) = source := by
        simp [hsource, Segment.raw]
      rw [hparts, byteSize_append, hplace] at hslice
      simp only [Segment.pieces, Token.placed, List.cons_append, List.nil_append, Draft.ofTokens, hslice,
        hrest]
      rfl

/-! ### The main statement -/

theorem tokens_eq_ok_iff {source : String} {found : List Token} :
    tokens source = .ok found ↔ Tokenized 0 source.toList found (byteSize source.toList) [] := by
  rw [tokens]
  constructor
  · intro h
    obtain ⟨stop, left, htokens, hend⟩ := tokenized_of_scan 0 source.toList
    rcases hend with ⟨hfailure, rfl, hstop⟩ | ⟨hfailure, -⟩
    · rw [Nat.zero_add] at hstop
      simp only [segments, Scanned.all, hfailure, Except.ok.injEq] at h
      rwa [h, hstop] at htokens
    · simp only [segments, Scanned.all, hfailure] at h
      cases h
  · intro h
    obtain ⟨row, rfl, hscan⟩ := h.scan_eq
    simp [segments, hscan, Scanned.all, scan]

theorem tokens_eq_error_iff {source : String} {error : ParseError} :
    tokens source = .error error ↔ ∃ found place rest, Tokenized 0 source.toList found place rest ∧
      Unclosed rest ∧ error = Fault.inSource source.toList ⟨.unterminatedTag, place⟩ := by
  rw [tokens]
  constructor
  · intro h
    obtain ⟨stop, left, htokens, hend⟩ := tokenized_of_scan 0 source.toList
    rcases hend with ⟨hfailure, -⟩ | ⟨hfailure, hunclosed⟩
    · simp only [segments, Scanned.all, hfailure] at h
      cases h
    · simp only [segments, Scanned.all, hfailure, Except.error.injEq] at h
      exact ⟨_, stop, left, htokens, hunclosed, h.symm⟩
  · rintro ⟨found, place, rest, htokens, hunclosed, rfl⟩
    obtain ⟨row, -, hscan⟩ := htokens.scan_eq
    simp [segments, hscan, Scanned.all, hunclosed.scan_eq]

/-- **How a template is cut.** A template has the tokens that it is cut into from left to right;
they cover it without a gap, in groups of one or three, and no text follows another. If it has none,
then it is cut up to a first comment or tag that nothing closes, and the error names that place.
Parsing is reading the tokens one by one, whatever would be done with one that is out of its
group. -/
theorem tokens_segmentation (source : String) :
    (∀ found, tokens source = .ok found ↔ Tokenized 0 source.toList found (byteSize source.toList) []) ∧
    (∀ found, tokens source = .ok found →
      Token.Contiguous 0 (byteSize source.toList) found ∧
      found.flatMap (·.span.slice source.toList) = source.toList ∧
      TokenKind.Grouped (found.map Token.kind) ∧
      found.IsChain fun token next => ¬(token.kind = .text ∧ next.kind = .text)) ∧
    (∀ error, tokens source = .error error ↔ ∃ found place rest,
      Tokenized 0 source.toList found place rest ∧ Unclosed rest ∧
        error = Fault.inSource source.toList ⟨.unterminatedTag, place⟩) ∧
    ∀ stray unfinished : Token → Except Fault Draft, parse source = (tokens source >>= fun found =>
      (Draft.ofTokens source.toList stray unfinished {} found >>= Draft.finish).mapError
        (·.inSource source.toList)) := by
  refine ⟨fun found => tokens_eq_ok_iff, fun found hfound => ?_, fun error => tokens_eq_error_iff,
    fun stray unfinished => ?_⟩
  · have htokens := tokens_eq_ok_iff.1 hfound
    have hslices := htokens.slices [] rfl rfl
    rw [List.append_nil] at hslices
    exact ⟨htokens.contiguous, hslices.symm, htokens.grouped, htokens.textsApart⟩
  · rw [parse, parseText, tokens]
    cases hrow : (segments source.toList).all with
    | error fault => rfl
    | ok row =>
      have hsegmented := segments_all_eq_ok_iff.1 hrow
      have hread : Draft.ofTokens source.toList stray unfinished {}
          (Token.placed 0 (row.flatMap Segment.pieces)) = Draft.segments 0 {} row :=
        Draft.ofTokens_placed stray unfinished {} [] hsegmented.flatMap_raw.symm rfl
      simp only [bind, Except.bind, hread]

end Stencil
