import Stencil.Proofs.Markup.Segmentation

/-!
# Segments that stand

A segment stands if it is read wherever it is written. Comments always do, and so do tags whose
quotes pair inside their body: a quote that finds no partner in its tag would look for one in the
rest of the template. A text stands if it has no two braces in a row, but what follows it must not
be text as well, and must not start with a brace if the text ends with one.
-/

namespace Stencil

/-! ### Text -/

/-- A text in which no tag starts. -/
def BraceFree (text : List Char) : Prop :=
  textBeforeTag text = text

theorem BraceFree.tail {char : Char} {text : List Char} (h : BraceFree (char :: text)) :
    BraceFree text := by
  rw [BraceFree, textBeforeTag] at h
  split at h
  · simp at h
  · exact (List.cons.inj h).2

theorem BraceFree.head {char : Char} {text : List Char} (h : BraceFree (char :: text)) :
    ¬(char = '{' ∧ text.head? = some '{') := by
  intro hopen
  rw [BraceFree, textBeforeTag, if_pos hopen] at h
  simp at h

/-- Two braces in a row do not arise where texts meet that do not both have a brace there. -/
def MeetsSafely (left right : List Char) : Prop :=
  left.getLast? = some '{' → right.head? ≠ some '{'

theorem textBeforeTag_append {left right : List Char} (hleft : BraceFree left)
    (hmeet : MeetsSafely left right) : textBeforeTag (left ++ right) = left ++ textBeforeTag right := by
  induction left with
  | nil => rfl
  | cons char left ih =>
    rw [List.cons_append, textBeforeTag, if_neg, List.cons_append]
    · rw [ih hleft.tail]
      intro hlast
      cases left with
      | nil => simp at hlast
      | cons next left => exact hmeet (by simpa using hlast)
    · intro hgiven
      obtain ⟨rfl, hhead⟩ := hgiven
      cases left with
      | nil => exact hmeet rfl (by simpa using hhead)
      | cons next left => exact hleft.head ⟨rfl, by simpa using hhead⟩

theorem BraceFree.append {left right : List Char} (hleft : BraceFree left) (hright : BraceFree right)
    (hmeet : MeetsSafely left right) : BraceFree (left ++ right) := by
  rw [BraceFree, textBeforeTag_append hleft hmeet, hright]

theorem braceFree_textBeforeTag (text : List Char) : BraceFree (textBeforeTag text) := by
  induction text with
  | nil => rfl
  | cons char rest ih =>
    rw [textBeforeTag]
    split
    · rfl
    · next hplain =>
      rw [BraceFree, textBeforeTag, if_neg, ih]
      intro hgiven
      obtain ⟨rfl, hhead⟩ := hgiven
      refine hplain ⟨rfl, ?_⟩
      cases rest with
      | nil => simp [textBeforeTag] at hhead
      | cons next rest =>
        rw [textBeforeTag] at hhead
        split at hhead
        · simp at hhead
        · simpa using hhead

/-- The text before a tag stops at its braces, and not behind a third one. -/
theorem textBeforeTag_stops {text rest : List Char} (h : textBeforeTag (text ++ rest) = text) :
    (rest = [] ∨ ∃ after, rest = '{' :: '{' :: after) ∧ (rest ≠ [] → text.getLast? ≠ some '{') := by
  induction text with
  | nil =>
    refine ⟨?_, by simp⟩
    cases rest with
    | nil => exact .inl rfl
    | cons char rest =>
      rw [List.nil_append, textBeforeTag] at h
      split at h
      · next hopen =>
        obtain ⟨rfl, hhead⟩ := hopen
        obtain ⟨after, rfl⟩ := List.head?_eq_some_iff.1 hhead
        exact .inr ⟨after, rfl⟩
      · simp at h
  | cons char text ih =>
    rw [List.cons_append, textBeforeTag] at h
    split at h
    · simp at h
    · next hplain =>
      obtain ⟨hrest, hlast⟩ := ih (List.cons.inj h).2
      refine ⟨hrest, fun hne => ?_⟩
      cases text with
      | nil =>
        obtain ⟨after, rfl⟩ := hrest.resolve_left hne
        intro hchar
        obtain rfl : char = '{' := by simpa using hchar
        exact hplain ⟨rfl, rfl⟩
      | cons next text => simpa using hlast hne

/-! ### Comments and tags -/

theorem isPrefixOf_append_of_length_le {marker text : List Char} (h : marker.length ≤ text.length)
    (rest : List Char) : marker.isPrefixOf (text ++ rest) = marker.isPrefixOf text := by
  induction marker generalizing text with
  | nil => simp
  | cons char marker ih =>
    cases text with
    | nil => simp at h
    | cons next text =>
      rw [List.cons_append, List.isPrefixOf, List.isPrefixOf, ih (by simpa using h)]

theorem textBefore_irrelevant {marker content rest : List Char} (hmarker : marker ≠ [])
    (h : textBefore marker (content ++ (marker ++ rest)) = some content) (other : List Char) :
    textBefore marker (content ++ (marker ++ other)) = some content := by
  induction content with
  | nil =>
    obtain ⟨char, marker, rfl⟩ := List.exists_cons_of_ne_nil hmarker
    rw [List.nil_append, List.cons_append, textBefore, if_pos]
    exact List.isPrefixOf_iff_prefix.2 (List.prefix_append _ other)
  | cons char content ih =>
    have hstarts : ∀ rest, marker.isPrefixOf (char :: (content ++ (marker ++ rest))) =
        marker.isPrefixOf (char :: (content ++ marker)) := by
      intro rest
      have hlength : marker.length ≤ (char :: (content ++ marker)).length := by
        simp only [List.length_cons, List.length_append]
        omega
      rw [← isPrefixOf_append_of_length_le hlength rest, List.cons_append, List.append_assoc]
    rw [List.cons_append, textBefore, hstarts] at h
    rw [List.cons_append, textBefore, hstarts]
    split at h
    · simp at h
    · next hplain =>
      rw [if_neg hplain]
      obtain ⟨tail, htail, heq⟩ := Option.map_eq_some_iff.1 h
      obtain rfl := (List.cons.inj heq).2
      rw [ih htail]
      rfl

theorem commentBody_irrelevant {body rest : List Char}
    (h : commentBody (body ++ '}' :: '}' :: rest) = some body) (other : List Char) :
    commentBody (body ++ '}' :: '}' :: other) = some body := by
  have hdashes : ∀ rest, ['-', '-'].isPrefixOf (body ++ '}' :: '}' :: rest) =
      ['-', '-'].isPrefixOf (body ++ ['}', '}']) := by
    intro rest
    have hlength : ['-', '-'].length ≤ (body ++ ['}', '}']).length := by simp
    rw [← isPrefixOf_append_of_length_le hlength rest, List.append_assoc]
    rfl
  rw [commentBody, hdashes] at h ⊢
  split at h
  · next hlong =>
    rw [if_pos hlong]
    obtain ⟨content, hcontent, rfl⟩ := Option.map_eq_some_iff.1 h
    have hsplit : ∀ rest : List Char, content ++ ['-', '-'] ++ '}' :: '}' :: rest =
        content ++ (['-', '-', '}', '}'] ++ rest) := by simp
    rw [hsplit] at hcontent ⊢
    rw [textBefore_irrelevant (by simp) hcontent other]
    rfl
  · next hshort =>
    rw [if_neg hshort]
    have hfound : textBefore ['}', '}'] (body ++ (['}', '}'] ++ other)) = some body :=
      textBefore_irrelevant (by simp) h other
    exact hfound

/-! ### Markers outside quotes -/

/-- A text with paired quotes in which a marker does not start outside of them, not even if the tail
follows the text. -/
inductive Clear (marker tail : List Char) : List Char → Prop where
  | nil : Clear marker tail []
  | plain {char : Char} {rest : List Char} :
    char ≠ '"' → ¬marker <+: char :: (rest ++ tail) → Clear marker tail rest → Clear marker tail (char :: rest)
  | quoted {content rest : List Char} :
    IsQuotable content → Clear marker tail rest → Clear marker tail ('"' :: (content ++ '"' :: rest))

theorem Clear.append {marker tail left right : List Char} (hleft : Clear marker (right ++ tail) left)
    (hright : Clear marker tail right) : Clear marker tail (left ++ right) := by
  induction hleft with
  | nil => exact hright
  | plain hchar hmarker _ ih => exact .plain hchar (by simpa using hmarker) ih
  | quoted hcontent _ ih =>
    rw [List.cons_append, List.append_assoc, List.cons_append]
    exact .quoted hcontent ih

theorem Clear.of_plain {marker tail rest : List Char} {char : Char} (hchar : char ≠ '"')
    (h : Clear marker tail (char :: rest)) : ¬marker <+: char :: (rest ++ tail) ∧ Clear marker tail rest := by
  generalize htext : char :: rest = text at h
  cases h with
  | nil => simp at htext
  | plain _ hmarker hrest =>
    obtain ⟨rfl, rfl⟩ := List.cons.inj htext
    exact ⟨hmarker, hrest⟩
  | quoted => exact absurd (List.cons.inj htext).1 hchar

theorem Clear.of_quoted {marker tail content rest : List Char} (hcontent : IsQuotable content)
    (h : Clear marker tail ('"' :: (content ++ '"' :: rest))) : Clear marker tail rest := by
  generalize htext : '"' :: (content ++ '"' :: rest) = text at h
  cases h with
  | nil => simp at htext
  | plain hchar => exact absurd (List.cons.inj htext).1.symm hchar
  | quoted hother hrest =>
    have heq := (List.cons.inj htext).2
    have hsame := hcontent.quotedContent rest
    rw [heq, hother.quotedContent] at hsame
    obtain rfl := Option.some.inj hsame
    obtain rfl := (List.cons.inj (List.append_cancel_left heq)).2
    exact hrest

theorem Clear.of_append {marker tail left right : List Char} (hleft : Paired left)
    (h : Clear marker tail (left ++ right)) :
    Clear marker (right ++ tail) left ∧ Clear marker tail right := by
  induction hleft with
  | nil => exact ⟨.nil, h⟩
  | @plain char rest hchar _ ih =>
    obtain ⟨hmarker, hrest⟩ := h.of_plain hchar
    exact ⟨.plain hchar (by simpa using hmarker) (ih hrest).1, (ih hrest).2⟩
  | quoted hcontent _ ih =>
    rw [List.cons_append, List.append_assoc, List.cons_append] at h
    exact ⟨.quoted hcontent (ih (h.of_quoted hcontent)).1, (ih (h.of_quoted hcontent)).2⟩

theorem prefix_left_of_notMem {marker text other : List Char} {char : Char} (hchar : char ∉ marker)
    (h : marker <+: text ++ char :: other) : marker <+: text := by
  rcases List.prefix_or_prefix_of_prefix h (List.prefix_append text _) with hshort | ⟨after, rfl⟩
  · exact hshort
  · cases after with
    | nil => simp
    | cons next after =>
      rw [List.prefix_append_right_inj, List.cons_prefix_cons] at h
      exact absurd (by simp [h.1]) hchar

/-- A marker does not reach across a character that it does not have. -/
theorem Clear.before {marker tail text : List Char} (h : Clear marker tail text) {char : Char}
    (hchar : char ∉ marker) (other : List Char) : Clear marker (char :: other) text := by
  induction h with
  | nil => exact .nil
  | @plain next rest hnext hmarker _ ih =>
    refine .plain hnext (fun hstarts => hmarker ?_) ih
    rw [← List.cons_append] at hstarts ⊢
    exact (prefix_left_of_notMem hchar hstarts).trans (List.prefix_append _ _)
  | quoted hcontent _ ih => exact .quoted hcontent ih

theorem Clear.lengthen {marker longer tail text : List Char} (h : Clear marker tail text)
    (hmarker : marker <+: longer) : Clear longer tail text := by
  induction h with
  | nil => exact .nil
  | plain hchar hstarts _ ih => exact .plain hchar (fun hlonger => hstarts (hmarker.trans hlonger)) ih
  | quoted hcontent _ ih => exact .quoted hcontent ih

theorem bodyBefore_skip (closer skipped text : List Char) :
    bodyBefore closer skipped.length (skipped ++ text) =
      (bodyBefore closer 0 text).map (skipped ++ ·) := by
  induction skipped with
  | nil => simp
  | cons char skipped ih =>
    rw [List.length_cons, List.cons_append, bodyBefore, ih, Option.map_map]
    rfl

theorem bodyBefore_quoted {closer content : List Char} (hcontent : IsQuotable content)
    (text : List Char) : bodyBefore closer 0 ('"' :: (content ++ '"' :: text)) =
      (bodyBefore closer 0 text).map fun body => '"' :: (content ++ '"' :: body) := by
  have hlength : quotedLength ('"' :: (content ++ '"' :: text)) = (content ++ ['"']).length + 1 := by
    rw [quotedLength, hcontent.quotedContent]
    simp
  have hsplit : content ++ '"' :: text = (content ++ ['"']) ++ text := by simp
  rw [bodyBefore, hlength]
  simp only
  rw [hsplit, bodyBefore_skip, Option.map_map]
  congr 1
  funext body
  simp

theorem bodyBefore_plain {closer text : List Char} {char : Char} (hchar : char ≠ '"') :
    bodyBefore closer 0 (char :: text) =
      if closer.isPrefixOf (char :: text) then some [] else (bodyBefore closer 0 text).map (char :: ·) := by
  have hlength : quotedLength (char :: text) = 0 := by
    rw [quotedLength.eq_def]
    split
    · next heq => exact absurd (List.cons.inj heq).1 hchar
    · rfl
  rw [bodyBefore, hlength]

theorem bodyBefore_of_clear {closer body : List Char} (hcloser : closer.head? = some '}')
    (h : Clear closer closer body) (rest : List Char) :
    bodyBefore closer 0 (body ++ (closer ++ rest)) = some body := by
  induction h with
  | nil =>
    obtain ⟨more, rfl⟩ := List.head?_eq_some_iff.1 hcloser
    rw [List.nil_append, List.cons_append, bodyBefore_plain (by decide), if_pos]
    exact List.isPrefixOf_iff_prefix.2 (List.prefix_append _ rest)
  | @plain char body hchar hmarker _ ih =>
    rw [List.cons_append, bodyBefore_plain hchar, if_neg, ih, Option.map_some]
    · rw [List.isPrefixOf_iff_prefix, ← List.append_assoc, ← List.cons_append]
      intro hstarts
      refine hmarker (List.prefix_of_prefix_length_le hstarts (List.prefix_append _ rest) ?_)
      simp only [List.length_cons, List.length_append]
      omega
  | quoted hcontent _ ih =>
    rw [List.cons_append, List.append_assoc, List.cons_append, bodyBefore_quoted hcontent, ih]
    rfl

theorem clear_of_bodyBefore {closer body rest : List Char} (hpaired : Paired body)
    (h : bodyBefore closer 0 (body ++ (closer ++ rest)) = some body) : Clear closer closer body := by
  induction hpaired with
  | nil => exact .nil
  | @plain char body hchar _ ih =>
    rw [List.cons_append, bodyBefore_plain hchar] at h
    split at h
    · simp at h
    · next hmarker =>
      obtain ⟨found, hfound, heq⟩ := Option.map_eq_some_iff.1 h
      obtain rfl := (List.cons.inj heq).2
      refine .plain hchar (fun hstarts => hmarker ?_) (ih hfound)
      rw [List.isPrefixOf_iff_prefix, ← List.append_assoc, ← List.cons_append]
      exact hstarts.trans (List.prefix_append _ rest)
  | @quoted content body hcontent _ ih =>
    rw [List.cons_append, List.append_assoc, List.cons_append, bodyBefore_quoted hcontent] at h
    obtain ⟨found, hfound, heq⟩ := Option.map_eq_some_iff.1 h
    obtain rfl : found = body := by simpa using heq
    exact .quoted hcontent (ih hfound)

/-! ### Standing segments -/

/-- The body does not change the kind: where the marker is empty it starts with no marker itself. -/
def TagKind.Opens (kind : TagKind) (body : List Char) : Prop :=
  kind = .escaped → ∀ char ∈ body.head?, char ∉ ['!', '{', '&', '#', '^', '/', '>']

theorem TagKind.ofText_marker {kind : TagKind} {text : List Char} (h : kind.Opens text) :
    TagKind.ofText (kind.marker ++ text) = (kind, text) ∧ (kind.marker ++ text).head? ≠ some '!' := by
  cases kind with
  | escaped =>
    cases text with
    | nil => exact ⟨rfl, by simp [TagKind.marker]⟩
    | cons char text =>
      have hchar := h rfl char rfl
      rw [TagKind.marker, List.nil_append, TagKind.ofText.eq_def]
      split <;> simp_all
  | _ => exact ⟨rfl, by simp [TagKind.marker]⟩

theorem TagKind.opens_of_ofText {kind : TagKind} {body : List Char}
    (hkind : (TagKind.ofText body).1 = kind) (hhead : body.head? ≠ some '!') :
    kind.Opens (TagKind.ofText body).2 := by
  rintro rfl char hchar
  cases body with
  | nil => simp [TagKind.ofText] at hchar
  | cons next body =>
    rw [TagKind.ofText.eq_def] at hkind hchar
    split at hkind <;> simp_all

/-- A segment that is read wherever it is written. -/
def Segment.Stands : Segment → Prop
  | .text content => content ≠ [] ∧ BraceFree content
  | .comment body => commentBody (body ++ ['}', '}']) = some body
  | .tag kind body => kind.Opens body ∧ Clear kind.closer kind.closer body

/-- Two segments that stay apart if one is written behind the other. -/
def Segment.StaysApart : Segment → Segment → Prop
  | .text _, .text _ => False
  | .text content, _ => content.getLast? ≠ some '{'
  | _, _ => True

theorem TagKind.closer_head (kind : TagKind) : kind.closer.head? = some '}' := by
  cases kind <;> rfl

theorem TagKind.Opens.append_closer {kind : TagKind} {body : List Char} (h : kind.Opens body) (rest : List Char) :
    kind.Opens (body ++ (kind.closer ++ rest)) := by
  obtain ⟨more, hmore⟩ := List.head?_eq_some_iff.1 kind.closer_head
  intro hkind char hchar
  cases body with
  | nil =>
    rw [hmore] at hchar
    obtain rfl := Option.some.inj hchar
    decide
  | cons first body => exact h hkind char hchar

theorem Segment.read?_eq_text {text content : List Char} (hne : content ≠ [])
    (h : textBeforeTag text = content) : Segment.read? text = some (.text content) := by
  cases text with
  | nil => exact absurd h.symm hne
  | cons char rest =>
    rw [textBeforeTag] at h
    rw [Segment.read?]
    split at h
    · exact absurd h.symm hne
    · next hplain => rw [if_neg hplain, h]

theorem Segment.read?_text {content rest : List Char} (h : (Segment.text content).Stands)
    (hrest : textBeforeTag rest = []) (hmeet : MeetsSafely content rest) :
    Segment.read? (content ++ rest) = some (.text content) := by
  refine Segment.read?_eq_text h.1 ?_
  rw [textBeforeTag_append h.2 hmeet, hrest, List.append_nil]

theorem Segment.read?_comment {body : List Char} (h : (Segment.comment body).Stands)
    (rest : List Char) : Segment.read? ((Segment.comment body).raw ++ rest) = some (.comment body) := by
  change (commentBody (body ++ ['}', '}'] ++ rest)).map Segment.comment = _
  rw [List.append_assoc, List.cons_append, List.cons_append, commentBody_irrelevant h]
  rfl

theorem Segment.read?_opener {kind : TagKind} {text : List Char} (h : kind.Opens text) :
    Segment.read? (kind.opener ++ text) = (bodyBefore kind.closer 0 text).map (.tag kind) := by
  obtain ⟨hkind, hhead⟩ := TagKind.ofText_marker h
  rw [TagKind.opener, List.cons_append, List.cons_append, Segment.read?, if_pos ⟨rfl, rfl⟩, List.tail_cons,
    Segment.ofTag?_tag hhead, hkind]

theorem Segment.read?_tag {kind : TagKind} {body : List Char} (h : (Segment.tag kind body).Stands)
    (rest : List Char) : Segment.read? ((Segment.tag kind body).raw ++ rest) = some (.tag kind body) := by
  have hraw : (Segment.tag kind body).raw ++ rest = kind.opener ++ (body ++ (kind.closer ++ rest)) := by
    simp [Segment.raw]
  rw [hraw, Segment.read?_opener (h.1.append_closer rest), bodyBefore_of_clear kind.closer_head h.2]
  rfl

/-- Segments that stand and stay apart are what their text falls into. -/
theorem segmented_of_stands {segments : List Segment} (hstands : ∀ segment ∈ segments, segment.Stands)
    (hapart : segments.IsChain Segment.StaysApart) :
    Segmented (segments.flatMap Segment.raw) segments := by
  induction segments with
  | nil => exact .nil
  | cons segment segments ih =>
    rw [List.flatMap_cons]
    rw [List.isChain_cons] at hapart
    have hstand := hstands segment (by simp)
    refine .cons ?_ (ih (fun other hother => hstands other (by simp [hother])) hapart.2)
    cases segment with
    | comment body => exact Segment.read?_comment hstand _
    | tag kind body => exact Segment.read?_tag hstand _
    | text content =>
      cases segments with
      | nil => exact Segment.read?_text hstand rfl (by simp [MeetsSafely])
      | cons next segments =>
        have hnext := hapart.1 next rfl
        cases next with
        | text => exact hnext.elim
        | comment body => exact Segment.read?_text hstand rfl fun hlast => absurd hlast hnext
        | tag kind body => exact Segment.read?_text hstand rfl fun hlast => absurd hlast hnext

/-! ### What is read stands -/

theorem Segment.textBeforeTag_of_read {text content : List Char}
    (h : Segment.read? text = some (.text content)) : textBeforeTag text = content := by
  cases text with
  | nil => simp [Segment.read?] at h
  | cons char rest =>
    rw [Segment.read?] at h
    rw [textBeforeTag]
    split at h
    · rw [Segment.ofTag?.eq_def] at h
      split at h <;> simp at h
    · next hplain =>
      rw [if_neg hplain]
      simpa using h

theorem Segment.stands_of_read_text {content rest : List Char}
    (h : Segment.read? (content ++ rest) = some (.text content)) : (Segment.text content).Stands := by
  refine ⟨Segment.raw_ne_nil_of_read h, ?_⟩
  rw [← Segment.textBeforeTag_of_read h]
  exact braceFree_textBeforeTag _

theorem Segment.stands_of_read_comment {body rest : List Char}
    (h : Segment.read? ((Segment.comment body).raw ++ rest) = some (.comment body)) :
    (Segment.comment body).Stands := by
  change (commentBody (body ++ ['}', '}'] ++ rest)).map Segment.comment = _ at h
  rw [List.append_assoc, List.cons_append, List.cons_append] at h
  obtain ⟨found, hfound, heq⟩ := Option.map_eq_some_iff.1 h
  obtain rfl := Segment.comment.inj heq
  exact commentBody_irrelevant hfound []

theorem Segment.stands_of_read_tag {kind : TagKind} {body rest : List Char} (hpaired : Paired body)
    (h : Segment.read? ((Segment.tag kind body).raw ++ rest) = some (.tag kind body)) :
    (Segment.tag kind body).Stands := by
  have hraw : (Segment.tag kind body).raw ++ rest =
      '{' :: '{' :: (kind.marker ++ (body ++ (kind.closer ++ rest))) := by
    simp [Segment.raw, TagKind.opener]
  rw [hraw, Segment.read?, if_pos ⟨rfl, rfl⟩, List.tail_cons] at h
  generalize hafter : kind.marker ++ (body ++ (kind.closer ++ rest)) = after at h
  by_cases hcomment : after.head? = some '!'
  · obtain ⟨text, rfl⟩ := List.head?_eq_some_iff.1 hcomment
    simp [Segment.ofTag?_comment] at h
  · rw [Segment.ofTag?_tag hcomment] at h
    obtain ⟨found, hfound, heq⟩ := Option.map_eq_some_iff.1 h
    obtain ⟨hkind, rfl⟩ := Segment.tag.inj heq
    have hbody : (TagKind.ofText after).2 = found ++ (kind.closer ++ rest) := by
      have hsplit := TagKind.ofText_eq after
      rw [hkind] at hsplit
      exact (List.append_cancel_left (hafter.trans hsplit)).symm
    rw [hkind, hbody] at hfound
    refine ⟨?_, clear_of_bodyBefore hpaired hfound⟩
    have hopens := TagKind.opens_of_ofText hkind hcomment
    rw [hbody] at hopens
    intro hescaped char hchar
    refine hopens hescaped char ?_
    cases found with
    | nil => simp at hchar
    | cons next found => simpa using hchar

theorem Segmented.stands {text : List Char} {segments : List Segment} (h : Segmented text segments)
    (hpaired : ∀ kind body, .tag kind body ∈ segments → Paired body) :
    ∀ segment ∈ segments, segment.Stands := by
  induction h with
  | nil => simp
  | @cons segment rest segments hread _ ih =>
    intro found hfound
    rcases List.mem_cons.1 hfound with rfl | hfound
    · cases found with
      | text content => exact Segment.stands_of_read_text hread
      | comment body => exact Segment.stands_of_read_comment hread
      | tag kind body => exact Segment.stands_of_read_tag (hpaired kind body (by simp)) hread
    · exact ih (fun kind body hbody => hpaired kind body (by simp [hbody])) found hfound

theorem Segmented.staysApart {text : List Char} {segments : List Segment}
    (h : Segmented text segments) : segments.IsChain Segment.StaysApart := by
  induction h with
  | nil => exact .nil
  | @cons segment rest segments hread hrest ih =>
    refine List.isChain_cons.2 ⟨fun next hnext => ?_, ih⟩
    cases segment with
    | comment | tag => trivial
    | text content =>
      obtain ⟨hstops, hlast⟩ := textBeforeTag_stops (Segment.textBeforeTag_of_read hread)
      obtain ⟨following, rfl⟩ := List.head?_eq_some_iff.1 hnext
      cases hrest with
      | @cons _ after _ hafter _ =>
        have hne : next.raw ++ after ≠ [] := by simp [Segment.raw_ne_nil_of_read hafter]
        obtain ⟨later, hlater⟩ := hstops.resolve_left hne
        cases next with
        | comment | tag => exact hlast hne
        | text other =>
          rw [hlater, Segment.read?, if_pos ⟨rfl, rfl⟩] at hafter
          rw [Segment.ofTag?.eq_def] at hafter
          split at hafter <;> simp at hafter

end Stencil
