import Stencil.Proofs.Markup.Commenting

/-!
# Where comments and tags end

A comment ends with the first of its closing markers. A tag ends with the first closing marker that
a search comes to, where the search walks from left to right and steps over a quoted string as a
whole; a quote that nothing closes is stepped over like any other character. What the readers find
is that marker, and they find nothing only if there is no such marker at all.
-/

namespace Stencil

/-! ### Quoted strings -/

/-- The content of a quoted string: a backslash stands with the character that it guards, and no
quote stands by itself. -/
inductive Guarded : List Char → Prop where
  | nil : Guarded []
  | plain {char : Char} {rest : List Char} : char ≠ '\\' → char ≠ '"' → Guarded rest → Guarded (char :: rest)
  | guarded {char : Char} {rest : List Char} : Guarded rest → Guarded ('\\' :: char :: rest)

theorem isQuotable_nil : IsQuotable [] :=
  rfl

theorem isQuotable_cons_iff {char : Char} {rest : List Char} (hslash : char ≠ '\\') (hquote : char ≠ '"') :
    IsQuotable (char :: rest) ↔ IsQuotable rest := by
  rw [IsQuotable, List.cons_append, quotedContent, if_neg hslash, if_neg fun h => hquote h.1, IsQuotable]
  cases quotedContent false (rest ++ ['"']) <;> simp

theorem isQuotable_guarded_iff {char : Char} {rest : List Char} :
    IsQuotable ('\\' :: char :: rest) ↔ IsQuotable rest := by
  rw [IsQuotable, List.cons_append, List.cons_append, quotedContent, if_pos rfl, quotedContent, IsQuotable]
  by_cases hslash : char = '\\'
  · rw [if_pos hslash]
    cases h : quotedContent false (rest ++ ['"']) <;> simp [h]
  · rw [if_neg hslash, if_neg (by simp)]
    cases quotedContent false (rest ++ ['"']) <;> simp

theorem isQuotable_iff_guarded {content : List Char} : IsQuotable content ↔ Guarded content := by
  constructor
  · intro h
    induction hlength : content.length using Nat.strong_induction_on generalizing content with
    | _ length ih =>
      rcases content with _ | ⟨char, rest⟩
      · exact .nil
      · by_cases hslash : char = '\\'
        · subst hslash
          rcases rest with _ | ⟨next, rest⟩
          · simp [IsQuotable, quotedContent] at h
          · exact .guarded (ih rest.length (by simp only [← hlength, List.length_cons]; omega)
              (isQuotable_guarded_iff.1 h) rfl)
        · have hquote : char ≠ '"' := by
            rintro rfl
            simp [IsQuotable, quotedContent] at h
          refine .plain hslash hquote (ih rest.length (by simp [← hlength]) ?_ rfl)
          exact (isQuotable_cons_iff hslash hquote).1 h
  · intro h
    induction h with
    | nil => exact isQuotable_nil
    | plain hslash hquote _ ih => exact (isQuotable_cons_iff hslash hquote).2 ih
    | guarded _ ih => exact isQuotable_guarded_iff.2 ih

def StartsString (text : List Char) : Prop :=
  ∃ content rest, Guarded content ∧ text = '"' :: (content ++ '"' :: rest)

theorem quotedLength_of_not_startsString {text : List Char} (h : ¬StartsString text) :
    quotedLength text = 0 := by
  rw [quotedLength.eq_def]
  split
  · next rest =>
    split
    · next content hcontent =>
      obtain ⟨hquotable, after, rfl⟩ := isQuotable_of_quotedContent hcontent
      exact absurd ⟨content, after, isQuotable_iff_guarded.1 hquotable, rfl⟩ h
    · rfl
  · rfl

theorem Guarded.unique {content other rest after : List Char} (h : Guarded content) (hother : Guarded other)
    (heq : content ++ '"' :: rest = other ++ '"' :: after) : content = other ∧ rest = after := by
  have hleft := (isQuotable_iff_guarded.2 h).quotedContent rest
  rw [heq, (isQuotable_iff_guarded.2 hother).quotedContent] at hleft
  obtain rfl := Option.some.inj hleft
  exact ⟨rfl, (List.cons.inj (List.append_cancel_left heq)).2⟩

/-! ### Searching outside of strings -/

/-- The search that starts with a text comes to another text, which is the rest of it. -/
inductive Visits : List Char → List Char → Prop where
  | here {text : List Char} : Visits text text
  | past {content rest found : List Char} :
    Guarded content → Visits rest found → Visits ('"' :: (content ++ '"' :: rest)) found
  | step {char : Char} {rest found : List Char} :
    ¬StartsString (char :: rest) → Visits rest found → Visits (char :: rest) found

/-- A text falls into what a search steps over at once. -/
theorem search_induction {motive : List Char → Prop} (nil : motive [])
    (string : ∀ content rest, Guarded content → motive rest → motive ('"' :: (content ++ '"' :: rest)))
    (step : ∀ char rest, ¬StartsString (char :: rest) → motive rest → motive (char :: rest))
    (text : List Char) : motive text := by
  induction hlength : text.length using Nat.strong_induction_on generalizing text with
  | _ length ih =>
    cases text with
    | nil => exact nil
    | cons char rest =>
      by_cases hstring : StartsString (char :: rest)
      · obtain ⟨content, after, hcontent, heq⟩ := hstring
        rw [heq] at hlength ⊢
        refine string content after hcontent (ih after.length ?_ after rfl)
        simp only [← hlength, List.length_cons, List.length_append]
        omega
      · exact step char rest hstring (ih rest.length (by simp [← hlength]) rest rfl)

theorem visits_nil_iff {found : List Char} : Visits [] found ↔ found = [] := by
  constructor
  · intro h
    cases h
    rfl
  · rintro rfl
    exact .here

theorem visits_string_iff {content rest found : List Char} (hcontent : Guarded content) :
    Visits ('"' :: (content ++ '"' :: rest)) found ↔
      found = '"' :: (content ++ '"' :: rest) ∨ Visits rest found := by
  constructor
  · intro h
    generalize htext : '"' :: (content ++ '"' :: rest) = text at h
    cases h with
    | here => exact .inl rfl
    | past hother hrest =>
      obtain ⟨-, rfl⟩ := hcontent.unique hother (List.cons.inj htext).2
      exact .inr hrest
    | step hnone _ => exact absurd ⟨content, rest, hcontent, htext.symm⟩ hnone
  · rintro (rfl | h)
    · exact .here
    · exact .past hcontent h

theorem visits_step_iff {char : Char} {rest found : List Char} (hnone : ¬StartsString (char :: rest)) :
    Visits (char :: rest) found ↔ found = char :: rest ∨ Visits rest found := by
  constructor
  · intro h
    generalize htext : char :: rest = text at h
    cases h with
    | here => exact .inl rfl
    | past hcontent _ => exact absurd ⟨_, _, hcontent, htext⟩ hnone
    | step _ hrest =>
      obtain ⟨rfl, rfl⟩ := List.cons.inj htext
      exact .inr hrest
  · rintro (rfl | h)
    · exact .here
    · exact .step hnone h

theorem Visits.suffix {text found : List Char} (h : Visits text found) : found <:+ text := by
  induction h with
  | here => exact List.suffix_rfl
  | @past content rest found _ _ ih =>
    have hrest : rest <:+ '"' :: (content ++ '"' :: rest) :=
      ⟨'"' :: (content ++ ['"']), by simp⟩
    exact ih.trans hrest
  | step _ _ ih => exact ih.trans (List.suffix_cons _ _)

/-- A body ends before the first closing marker that the search comes to. -/
structure EndsFirst (closer body after : List Char) : Prop where
  visited : Visits (body ++ (closer ++ after)) (closer ++ after)
  first : ∀ found, Visits (body ++ (closer ++ after)) found → closer <+: found →
    found.length ≤ (closer ++ after).length

section

variable {closer : List Char} (hcloser : closer.head? = some '}')

theorem bodyBefore_step {char : Char} {rest : List Char} (hnone : ¬StartsString (char :: rest)) :
    bodyBefore closer 0 (char :: rest) =
      if closer.isPrefixOf (char :: rest) then some [] else (bodyBefore closer 0 rest).map (char :: ·) := by
  rw [bodyBefore, quotedLength_of_not_startsString hnone]

include hcloser

theorem not_prefix_string (text : List Char) : ¬closer <+: '"' :: text := by
  obtain ⟨more, rfl⟩ := List.head?_eq_some_iff.1 hcloser
  intro hstarts
  exact absurd (List.cons_prefix_cons.1 hstarts).1 (by decide)

theorem exists_endsFirst_of_bodyBefore {text body : List Char} (h : bodyBefore closer 0 text = some body) :
    ∃ after, text = body ++ (closer ++ after) ∧ EndsFirst closer body after := by
  induction text using search_induction generalizing body with
  | nil => simp [bodyBefore] at h
  | string content rest hcontent ih =>
    rw [bodyBefore_quoted (isQuotable_iff_guarded.2 hcontent)] at h
    obtain ⟨inner, hinner, rfl⟩ := Option.map_eq_some_iff.1 h
    obtain ⟨after, rfl, hends⟩ := ih hinner
    refine ⟨after, by simp, ?_, fun found hfound hstarts => ?_⟩
    · simpa using Visits.past hcontent hends.visited
    · rw [List.cons_append, List.append_assoc, List.cons_append, visits_string_iff hcontent] at hfound
      rcases hfound with rfl | hfound
      · exact absurd hstarts (not_prefix_string hcloser _)
      · exact hends.first found hfound hstarts
  | step char rest hnone ih =>
    rw [bodyBefore_step hnone] at h
    split at h
    · next hprefix =>
      obtain rfl := Option.some.inj h
      obtain ⟨after, hafter⟩ := List.isPrefixOf_iff_prefix.1 hprefix
      refine ⟨after, hafter.symm, .here, fun found hfound _ => ?_⟩
      simpa using hfound.suffix.length_le
    · next hplain =>
      obtain ⟨inner, hinner, rfl⟩ := Option.map_eq_some_iff.1 h
      obtain ⟨after, rfl, hends⟩ := ih hinner
      refine ⟨after, rfl, .step hnone hends.visited, fun found hfound hstarts => ?_⟩
      rw [List.cons_append, visits_step_iff hnone] at hfound
      rcases hfound with rfl | hfound
      · exact absurd (List.isPrefixOf_iff_prefix.2 hstarts) hplain
      · exact hends.first found hfound hstarts

theorem not_prefix_of_bodyBefore {text found : List Char} (h : bodyBefore closer 0 text = none)
    (hfound : Visits text found) : ¬closer <+: found := by
  induction text using search_induction with
  | nil =>
    obtain rfl := visits_nil_iff.1 hfound
    rw [List.prefix_nil]
    rintro rfl
    simp at hcloser
  | string content rest hcontent ih =>
    rw [bodyBefore_quoted (isQuotable_iff_guarded.2 hcontent), Option.map_eq_none_iff] at h
    rcases (visits_string_iff hcontent).1 hfound with rfl | hfound
    · exact not_prefix_string hcloser _
    · exact ih h hfound
  | step char rest hnone ih =>
    rw [bodyBefore_step hnone] at h
    split at h
    · simp at h
    · next hplain =>
      rcases (visits_step_iff hnone).1 hfound with rfl | hfound
      · exact fun hstarts => hplain (List.isPrefixOf_iff_prefix.2 hstarts)
      · exact ih (Option.map_eq_none_iff.1 h) hfound

/-- A body is read exactly if it ends before the first closing marker that counts. -/
theorem bodyBefore_eq_some_iff {text body : List Char} :
    bodyBefore closer 0 text = some body ↔
      ∃ after, text = body ++ (closer ++ after) ∧ EndsFirst closer body after := by
  refine ⟨exists_endsFirst_of_bodyBefore hcloser, ?_⟩
  rintro ⟨after, rfl, hends⟩
  cases hfound : bodyBefore closer 0 (body ++ (closer ++ after)) with
  | none =>
    exact absurd (List.prefix_append _ _) (not_prefix_of_bodyBefore hcloser hfound hends.visited)
  | some other =>
    obtain ⟨later, hsplit, hother⟩ := exists_endsFirst_of_bodyBefore hcloser hfound
    have hleft := hends.first _ (hsplit ▸ hother.visited) (List.prefix_append _ _)
    have hright := hother.first _ (hsplit ▸ hends.visited) (List.prefix_append _ _)
    have hlength := congrArg List.length hsplit
    simp only [List.length_append] at hleft hright hlength
    rw [(List.append_inj hsplit (by omega)).1]

theorem bodyBefore_eq_none_iff {text : List Char} :
    bodyBefore closer 0 text = none ↔ ∀ found, Visits text found → ¬closer <+: found := by
  refine ⟨fun h found => not_prefix_of_bodyBefore hcloser h, fun h => ?_⟩
  cases hfound : bodyBefore closer 0 text with
  | none => rfl
  | some body =>
    obtain ⟨after, rfl, hends⟩ := exists_endsFirst_of_bodyBefore hcloser hfound
    exact absurd (List.prefix_append _ _) (h _ hends.visited)

end

/-! ### Comments -/

/-- The marker that ends a comment, from what follows its exclamation mark. -/
def commentCloser (text : List Char) : List Char :=
  if ['-', '-'] <+: text then ['-', '-', '}', '}'] else ['}', '}']

/-- A marker starts behind a content, and nowhere before. -/
def StartsFirst (marker content after : List Char) : Prop :=
  ∀ left right, content = left ++ right → right ≠ [] → ¬marker <+: right ++ (marker ++ after)

theorem textBefore_eq_none_iff {marker text : List Char} (hmarker : marker ≠ []) :
    textBefore marker text = none ↔ ¬marker <:+: text := by
  induction text with
  | nil => simpa [textBefore] using hmarker
  | cons char rest ih =>
    rw [textBefore, List.infix_cons_iff, not_or, ← ih, ← List.isPrefixOf_iff_prefix]
    split
    · next h => simp [h]
    · next h => simp [h]

theorem commentCloser_ne_nil (text : List Char) : commentCloser text ≠ [] := by
  rw [commentCloser]
  split <;> simp

theorem commentBody_eq (text : List Char) :
    (commentBody text).map (· ++ ['}', '}']) =
      (textBefore (commentCloser text) text).map (· ++ commentCloser text) := by
  rw [commentBody, commentCloser]
  by_cases hlong : ['-', '-'] <+: text
  · rw [if_pos hlong, if_pos (List.isPrefixOf_iff_prefix.2 hlong), Option.map_map]
    congr 1
    funext content
    simp
  · rw [if_neg hlong, if_neg fun h => hlong (List.isPrefixOf_iff_prefix.1 h)]

theorem commentBody_eq_some_iff {text body : List Char} :
    commentBody text = some body ↔
      ∃ content after, text = content ++ (commentCloser text ++ after) ∧
        body ++ ['}', '}'] = content ++ commentCloser text ∧
        StartsFirst (commentCloser text) content after := by
  have hne := commentCloser_ne_nil text
  have hbody : commentBody text = some body ↔
      (commentBody text).map (· ++ ['}', '}']) = some (body ++ ['}', '}']) := by
    cases commentBody text <;> simp
  rw [hbody, commentBody_eq, Option.map_eq_some_iff]
  constructor
  · rintro ⟨content, hcontent, heq⟩
    obtain ⟨after, hafter⟩ := exists_of_textBefore hcontent
    refine ⟨content, after, hafter, heq.symm, ?_⟩
    generalize commentCloser text = closer at hcontent hafter hne
    subst hafter
    exact (textBefore_eq_some_iff hne).1 hcontent
  · rintro ⟨content, after, hafter, heq, hfirst⟩
    refine ⟨content, ?_, heq.symm⟩
    generalize commentCloser text = closer at hafter hfirst hne
    subst hafter
    exact (textBefore_eq_some_iff hne).2 hfirst

theorem commentBody_eq_none_iff {text : List Char} :
    commentBody text = none ↔ ¬commentCloser text <:+: text := by
  rw [← textBefore_eq_none_iff (commentCloser_ne_nil text)]
  have hmap := commentBody_eq text
  cases hbody : commentBody text <;> cases hbefore : textBefore (commentCloser text) text <;>
    simp [hbody, hbefore] at hmap ⊢

end Stencil
