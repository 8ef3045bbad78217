import Stencil.Proofs.Markup.Backslashes
import Stencil.Proofs.Markup.Nesting
import Stencil.Proofs.Markup.Spacing
import Stencil.Proofs.Markup.Tokenization

/-!
# Quotes inside words

A quote behind the name in a tag is malformed, and the error stands at the quote. But where the tag
ends is settled before its words are read, and the quote looks for a partner in all of the template:
if a quote behind the tag can end a string, then the closing marker of the tag is inside this
string, and the tag goes on to the next marker. So the error is found exactly if there is such a
marker and the template can be cut into tokens behind it. Otherwise a comment or tag without an end
is reported.
-/

namespace Stencil

/-- The name of a tag and what stands between a quote behind the name and the end of the tag. -/
structure StrayQuote (name inside : List Char) : Prop where
  nonempty : name ≠ []
  plain : ∀ char ∈ name, Word.isPlain char = true ∧ char ≠ '{' ∧ char ≠ '}'
  unmarked : ∀ char ∈ name.head?, char ∉ ['!', '&', '#', '^', '/', '>']
  inside : ∀ char ∈ inside, char ≠ '"' ∧ char ≠ '}'

theorem strayQuote_world : StrayQuote ['w', 'o'] ['r', 'l', 'd'] where
  nonempty := by decide
  plain := by simpa [Word.isPlain] using (by decide : isBlank 'w' = false ∧ isBlank 'o' = false)
  unmarked := by simp
  inside := by simp

/-- What may stand behind a tag with a stray quote: a text of which no quote ends a string, or a
string of which the rest stands there, then the rest of a tag, and what can be cut into tokens. -/
inductive EndsStray (after : List Char) : Prop where
  | alone : (∀ before rest, after = before ++ '"' :: rest → Odd (slashRun before)) → EndsStray after
  | later {content body rest : List Char} :
    after = content ++ '"' :: (body ++ (['}', '}'] ++ rest)) → SlashRuns Odd [] content →
    EndsFirst ['}', '}'] body rest → (∃ found, tokens (String.ofList rest) = .ok found) → EndsStray after

/-! ### Tokens -/

theorem exists_tokens_iff {text : List Char} :
    (∃ found, tokens (String.ofList text) = .ok found) ↔ ∃ row, Segmented text row := by
  simp only [← segments_all_eq_ok_iff]
  rw [tokens, String.toList_ofList]
  cases (segments text).all <;> simp

theorem parse_eq_of_not_segmented {source : List Char} (h : ¬∃ row, Segmented source row) :
    ∃ place, parse (String.ofList source) = .error (Fault.inSource source ⟨.unterminatedTag, place⟩) := by
  have hnone := mt exists_tokens_iff.1 h
  cases hfound : tokens (String.ofList source) with
  | ok found => exact absurd ⟨found, hfound⟩ hnone
  | error error =>
    obtain ⟨_, place, _, -, -, herror⟩ := tokens_eq_error_iff.1 hfound
    refine ⟨place, ?_⟩
    rw [tokens, String.toList_ofList] at hfound
    rw [String.toList_ofList] at herror
    rw [parse, parseText, String.toList_ofList]
    cases hrow : (segments source).all with
    | ok row => simp [hrow] at hfound
    | error fault =>
      rw [hrow] at hfound
      exact congrArg Except.error ((Except.error.inj hfound).trans herror)

theorem segmented_opener_iff {kind : TagKind} {text : List Char} {row : List Segment} (hopens : kind.Opens text) :
    Segmented (kind.opener ++ text) row ↔
      ∃ body rest others, bodyBefore kind.closer 0 text = some body ∧ text = body ++ (kind.closer ++ rest) ∧
        Segmented rest others ∧ row = .tag kind body :: others := by
  have hread := Segment.read?_opener hopens
  constructor
  · intro h
    generalize hsource : kind.opener ++ text = source at h
    cases h with
    | nil => simp [TagKind.opener] at hsource
    | @cons segment rest others hsegment hrest =>
      rw [← hsource, hread] at hsegment
      obtain ⟨body, hbody, rfl⟩ := Option.map_eq_some_iff.1 hsegment
      refine ⟨body, rest, others, hbody, ?_, hrest, rfl⟩
      rw [Segment.raw, List.append_assoc, List.append_assoc] at hsource
      exact List.append_cancel_left hsource
  · rintro ⟨body, rest, others, hbody, rfl, hrest, rfl⟩
    have hraw : kind.opener ++ (body ++ (kind.closer ++ rest)) = (Segment.tag kind body).raw ++ rest := by
      simp [Segment.raw]
    rw [hraw] at hread ⊢
    refine .cons ?_ hrest
    rw [hread, hbody]
    rfl

/-! ### Where the tag ends -/

/-- A closing brace lets no backslash before it guard what follows. -/
theorem quotedContent_past_brace {inside : List Char} (h : '"' ∉ inside) (guarded : Bool) (rest : List Char) :
    quotedContent guarded (inside ++ '}' :: rest) = (quotedContent false rest).map (inside ++ '}' :: ·) := by
  induction inside generalizing guarded with
  | nil => simp [quotedContent]
  | cons char inside ih =>
    rw [List.mem_cons, not_or] at h
    rw [List.cons_append, quotedContent]
    by_cases hslash : char = '\\'
    · rw [if_pos hslash, ih h.2, Option.map_map]
      rfl
    · rw [if_neg hslash, if_neg fun hquote => h.1 hquote.1.symm, ih h.2, Option.map_map]
      rfl

theorem bodyBefore_past {text : List Char} (h : ∀ char ∈ text, char ≠ '"' ∧ char ≠ '}') (rest : List Char) :
    bodyBefore ['}', '}'] 0 (text ++ rest) = (bodyBefore ['}', '}'] 0 rest).map (text ++ ·) := by
  induction text with
  | nil => simp
  | cons char text ih =>
    obtain ⟨⟨hquote, hbrace⟩, htext⟩ := List.forall_mem_cons.1 h
    have hplain : ¬['}', '}'].isPrefixOf (char :: (text ++ rest)) = true := by
      simp [List.isPrefixOf, hbrace.symm]
    rw [List.cons_append, bodyBefore_plain hquote, if_neg hplain, ih htext, Option.map_map]
    rfl

namespace StrayQuote

variable {name inside after : List Char}

def text (name inside after : List Char) : List Char :=
  name ++ '"' :: (inside ++ '}' :: '}' :: after)

theorem source_eq :
    (Segment.tag .escaped (name ++ '"' :: inside)).raw ++ after =
      TagKind.escaped.opener ++ text name inside after := by
  simp [Segment.raw, TagKind.closer, text]

variable (h : StrayQuote name inside)

include h

theorem opens : TagKind.Opens .escaped (text name inside after) := by
  intro _ char hchar
  obtain ⟨first, rest, hname⟩ := List.exists_cons_of_ne_nil h.nonempty
  have hhead : first = char := by simpa [text, hname] using hchar
  have hunmarked := h.unmarked first (by simp [hname])
  have hbrace := (h.plain first (by simp [hname])).2.1
  rw [← hhead]
  simp_all

theorem name_plain : ∀ char ∈ name, char ≠ '"' ∧ char ≠ '}' := by
  intro char hchar
  have hplain := h.plain char hchar
  refine ⟨?_, hplain.2.2⟩
  rintro rfl
  exact absurd hplain.1 (by decide)

/-- No quote behind the tag ends a string, so the tag ends where it seems to. -/
theorem bodyBefore_of_none (hnone : quotedContent false after = none) :
    bodyBefore ['}', '}'] 0 (text name inside after) = some (name ++ '"' :: inside) := by
  have hquote : quotedContent false (inside ++ '}' :: '}' :: after) = none := by
    have hinside : '"' ∉ inside := fun hmem => (h.inside _ hmem).1 rfl
    rw [quotedContent_past_brace hinside, quotedContent]
    simp [hnone]
  have hstring : ¬StartsString ('"' :: (inside ++ '}' :: '}' :: after)) := by
    rintro ⟨content, rest, hcontent, heq⟩
    rw [(List.cons.inj heq).2, (isQuotable_iff_guarded.2 hcontent).quotedContent] at hquote
    cases hquote
  have hstart : ¬['}', '}'].isPrefixOf ('"' :: (inside ++ '}' :: '}' :: after)) = true := by
    simp [List.isPrefixOf]
  have hend : bodyBefore ['}', '}'] 0 ('}' :: '}' :: after) = some [] := by
    rw [bodyBefore_plain (by decide), if_pos (by simp [List.isPrefixOf])]
  rw [text, bodyBefore_past h.name_plain, bodyBefore_step hstring, if_neg hstart, bodyBefore_past h.inside, hend]
  simp

omit h in
theorem isQuotable_past (hinside : ∀ char ∈ inside, char ≠ '"' ∧ char ≠ '}') {content : List Char}
    (hcontent : IsQuotable content) : IsQuotable (inside ++ '}' :: '}' :: content) := by
  have hquote : '"' ∉ inside := fun hmem => (hinside _ hmem).1 rfl
  have hbrace : IsQuotable ('}' :: content) := (isQuotable_cons_iff (by decide) (by decide)).2 hcontent
  rw [IsQuotable, List.append_assoc, List.cons_append, quotedContent_past_brace hquote, hbrace]
  rfl

/-- A quote behind the tag ends a string, so the tag goes on behind this quote. -/
theorem bodyBefore_of_some {content rest : List Char} (hcontent : IsQuotable content) :
    bodyBefore ['}', '}'] 0 (text name inside (content ++ '"' :: rest)) =
      (bodyBefore ['}', '}'] 0 rest).map fun body =>
        name ++ '"' :: (inside ++ '}' :: '}' :: content ++ '"' :: body) := by
  have hsplit : inside ++ '}' :: '}' :: (content ++ '"' :: rest) =
      inside ++ '}' :: '}' :: content ++ '"' :: rest := by simp
  rw [text, hsplit, bodyBefore_past h.name_plain, bodyBefore_quoted (isQuotable_past h.inside hcontent), Option.map_map]
  rfl

theorem exists_of_bodyBefore {body : List Char}
    (hbody : bodyBefore ['}', '}'] 0 (text name inside after) = some body) :
    ∃ more, body = name ++ '"' :: more := by
  cases hquoted : quotedContent false after with
  | none =>
    rw [h.bodyBefore_of_none hquoted] at hbody
    exact ⟨inside, (Option.some.inj hbody).symm⟩
  | some content =>
    obtain ⟨hcontent, rest, rfl⟩ := isQuotable_of_quotedContent hquoted
    rw [h.bodyBefore_of_some hcontent] at hbody
    obtain ⟨last, -, rfl⟩ := Option.map_eq_some_iff.1 hbody
    exact ⟨_, rfl⟩

/-- The template can be cut into tokens exactly if the tag with the stray quote ends and the rest
can. -/
theorem segmented_iff (hafter : ∃ found, tokens (String.ofList after) = .ok found) :
    (∃ row, Segmented (TagKind.escaped.opener ++ text name inside after) row) ↔ EndsStray after := by
  simp only [segmented_opener_iff h.opens, TagKind.closer]
  cases hquoted : quotedContent false after with
  | none =>
    have halone : EndsStray after := .alone (quotedContent_false_eq_none_iff.1 hquoted)
    obtain ⟨others, hothers⟩ := exists_tokens_iff.1 hafter
    refine iff_of_true ⟨_, _, after, others, h.bodyBefore_of_none hquoted, ?_, hothers, rfl⟩ halone
    simp [text]
  | some content =>
    obtain ⟨hcontent, rest, rfl⟩ := isQuotable_of_quotedContent hquoted
    rw [h.bodyBefore_of_some hcontent]
    constructor
    · rintro ⟨_, _, left, others, hbody, hsplit, hothers, -⟩
      obtain ⟨last, hlast, rfl⟩ := Option.map_eq_some_iff.1 hbody
      obtain ⟨found, hfound, hends⟩ := (bodyBefore_eq_some_iff rfl).1 hlast
      obtain rfl : found = left := by simpa [text, hfound] using hsplit
      refine .later (by rw [hfound]) (isQuotable_iff_slashRuns.1 hcontent) hends ?_
      exact exists_tokens_iff.2 ⟨others, hothers⟩
    · intro hends
      cases hends with
      | alone hnone =>
        rw [quotedContent_false_eq_none_iff.2 hnone] at hquoted
        cases hquoted
      | @later other body left hsplit hother hends hleft =>
        have hsame := (isQuotable_iff_guarded.1 hcontent).unique
          (isQuotable_iff_guarded.1 (isQuotable_iff_slashRuns.2 hother)) hsplit
        obtain ⟨rfl, rfl⟩ := hsame
        obtain ⟨others, hothers⟩ := exists_tokens_iff.1 hleft
        have hbody : bodyBefore ['}', '}'] 0 (body ++ (['}', '}'] ++ left)) = some body :=
          (bodyBefore_eq_some_iff rfl).2 ⟨left, rfl, hends⟩
        rw [hbody]
        refine ⟨_, _, left, others, rfl, ?_, hothers, rfl⟩
        simp [text]

/-! ### What the tag reads as -/

theorem words_eq (place : Nat) (more : List Char) :
    words place (name ++ '"' :: more) = ⟨[], some ⟨.malformedLiteral, place + byteSize name⟩⟩ := by
  have hread : Word.read place (name ++ '"' :: more) = .error ⟨.malformedLiteral, place + byteSize name⟩ := by
    have hquote : ∀ char ∈ ('"' :: more).head?, Word.isPlain char = false := by simp [Word.isPlain]
    obtain ⟨htake, hdrop⟩ := Word.takeWhile_append_stop (fun char hchar => (h.plain char hchar).1) hquote
    rw [Word.read, hdrop, htake]
    simp only
    rw [if_neg h.nonempty]
  obtain ⟨first, rest, hname⟩ := List.exists_cons_of_ne_nil h.nonempty
  have hblank : isBlank first = false := by
    have hfirst := (h.plain first (by simp [hname])).1
    simp only [Word.isPlain, Bool.and_eq_true, Bool.not_eq_true'] at hfirst
    exact hfirst.1.1
  rw [hname, List.cons_append] at hread ⊢
  rw [words, scan, Word.step, if_neg (by simp [hblank]), hread]
  rfl

theorem tag_eq (draft : Draft) (place : Nat) (more : List Char) :
    draft.tag place .escaped (name ++ '"' :: more) =
      .error ⟨.malformedLiteral, place + byteSize (TagKind.opener .escaped) + byteSize name⟩ := by
  have helse : trim (name ++ '"' :: more) ≠ ['e', 'l', 's', 'e'] := by
    intro htrim
    obtain ⟨found, hrow⟩ := Word.row_of_trim_else htrim 0
    rw [← Word.words_eq_iff, h.words_eq] at hrow
    cases hrow
  rw [Draft.tag]
  simp only
  rw [if_neg helse, Call.ofBody, h.words_eq]
  rfl

theorem parse_eq_of_segmented {row : List Segment}
    (hrow : Segmented (TagKind.escaped.opener ++ text name inside after) row) :
    parse (String.ofList (TagKind.escaped.opener ++ text name inside after)) =
      .error (Fault.inSource (TagKind.escaped.opener ++ text name inside after)
        ⟨.malformedLiteral, 2 + byteSize name⟩) := by
  obtain ⟨body, rest, others, hbody, -, -, rfl⟩ := (segmented_opener_iff h.opens).1 hrow
  obtain ⟨more, rfl⟩ := h.exists_of_bodyBefore hbody
  have htag := h.tag_eq {} 0 more
  have hsize : 0 + byteSize (TagKind.opener .escaped) = 2 := by decide
  rw [hsize] at htag
  rw [parse, String.toList_ofList, parseText_of_row (segments_all_eq_ok_iff.2 hrow), Draft.segments, Draft.segment,
    htag]
  rfl

end StrayQuote

/-- **Quotes inside words.** A quote stands behind the name in a tag, and the rest of the template
can be cut into tokens. Then the error is the malformed literal at this quote exactly if no quote in
the rest ends a string, or the tag ends behind this string and what follows can be cut into tokens.
Otherwise the error is a comment or tag without an end. -/
theorem parse_strayQuote_iff {name inside after : List Char} (h : StrayQuote name inside)
    (hafter : ∃ found, tokens (String.ofList after) = .ok found) :
    let source := (Segment.tag .escaped (name ++ '"' :: inside)).raw ++ after
    (parse (String.ofList source) = .error (Fault.inSource source ⟨.malformedLiteral, 2 + byteSize name⟩) ↔
      EndsStray after) ∧
    (¬EndsStray after →
      ∃ place, parse (String.ofList source) = .error (Fault.inSource source ⟨.unterminatedTag, place⟩)) := by
  intro source
  have hsource : source = TagKind.escaped.opener ++ StrayQuote.text name inside after := StrayQuote.source_eq
  rw [hsource, ← h.segmented_iff hafter]
  refine ⟨⟨fun herror => ?_, fun ⟨row, hrow⟩ => h.parse_eq_of_segmented hrow⟩, parse_eq_of_not_segmented⟩
  by_contra hnone
  obtain ⟨place, hunclosed⟩ := parse_eq_of_not_segmented hnone
  have hsame := congrArg ParseError.cause (Except.error.inj (herror.symm.trans hunclosed))
  cases hsame

/-- A string that starts at the stray quote ends behind the tag, and the tag ends behind this
string. -/
theorem parse_strayQuote_closed_later :
    parse "\x7b\x7bwo\"rld\x7d\x7d \"hi\x7d\x7d" =
      .error ⟨.malformedLiteral, 4, "\x7b\x7bwo\"rld\x7d\x7d \"hi\x7d\x7d"⟩ := by
  have hafter : tokens (String.ofList [' ', '"', 'h', 'i', '}', '}']) = .ok [⟨.text, 0, 6⟩] := rfl
  have hbody : bodyBefore ['}', '}'] 0 ['h', 'i', '}', '}'] = some ['h', 'i'] := rfl
  obtain ⟨rest, hrest, hends⟩ := (bodyBefore_eq_some_iff (by decide)).1 hbody
  obtain rfl : [] = rest := by simpa using hrest
  have hcontent : SlashRuns Odd [] [' '] := isQuotable_iff_slashRuns.1 rfl
  have hlater : EndsStray [' ', '"', 'h', 'i', '}', '}'] := .later rfl hcontent hends ⟨[], rfl⟩
  exact (parse_strayQuote_iff strayQuote_world ⟨_, hafter⟩).1.2 hlater

/-- Behind this tag a text ends the string that starts at the stray quote, and the tag has no
end. -/
theorem parse_strayQuote_unclosed :
    StrayQuote ['w', 'o'] ['r', 'l', 'd'] ∧ tokens " \"hi\"" = .ok [⟨.text, 0, 5⟩] ∧
    parse "\x7b\x7bwo\"rld\x7d\x7d \"hi\"" = .error ⟨.unterminatedTag, 0, "\x7b\x7bwo\"rld\x7d\x7d \"hi\""⟩ ∧
    ∀ near, parse "\x7b\x7bwo\"rld\x7d\x7d \"hi\"" ≠ .error ⟨.malformedLiteral, 4, near⟩ := by
  have hparse : parse "\x7b\x7bwo\"rld\x7d\x7d \"hi\"" =
      .error ⟨.unterminatedTag, 0, "\x7b\x7bwo\"rld\x7d\x7d \"hi\""⟩ := rfl
  refine ⟨strayQuote_world, rfl, hparse, ?_⟩
  intro near hnear
  rw [hparse] at hnear
  cases congrArg ParseError.cause (Except.error.inj hnear)

end Stencil
