import Stencil.Proofs.Markup.Drafting

/-!
# Comments in their long form

The text of a comment can stand between two pairs of dashes, whichever form the comment was written
in: a short comment has no closing braces in it, and a long one no dashes before them.
-/

namespace Stencil

/-- A content is what stands before a marker exactly if the marker does not start inside it. -/
theorem textBefore_eq_some_iff {marker content rest : List Char} (hmarker : marker ≠ []) :
    textBefore marker (content ++ (marker ++ rest)) = some content ↔
      ∀ left right, content = left ++ right → right ≠ [] → ¬marker <+: right ++ (marker ++ rest) := by
  induction content with
  | nil =>
    obtain ⟨char, marker, rfl⟩ := List.exists_cons_of_ne_nil hmarker
    constructor
    · intro _ left right hsplit hne
      exact absurd (List.append_eq_nil_iff.1 hsplit.symm).2 hne
    · intro _
      rw [List.nil_append, List.cons_append, textBefore, if_pos]
      exact List.isPrefixOf_iff_prefix.2 (List.prefix_append _ rest)
  | cons char content ih =>
    rw [List.cons_append, textBefore]
    constructor
    · intro h left right hsplit hne
      split at h
      · simp at h
      · next hmarker =>
        obtain ⟨found, hfound, heq⟩ := Option.map_eq_some_iff.1 h
        obtain rfl := (List.cons.inj heq).2
        cases left with
        | nil =>
          obtain rfl : char :: found = right := hsplit
          rwa [List.isPrefixOf_iff_prefix] at hmarker
        | cons first left =>
          rw [List.cons_append, List.cons.injEq] at hsplit
          exact ih.1 hfound left right hsplit.2 hne
    · intro h
      have hhead := h [] (char :: content) rfl (by simp)
      rw [if_neg (by rwa [List.isPrefixOf_iff_prefix]), ih.2, Option.map_some]
      intro left right hsplit hne
      exact h (char :: left) right (by rw [hsplit, List.cons_append]) hne

theorem commentText_long (text : List Char) :
    Draft.commentText ('-' :: '-' :: (text ++ ['-', '-'])) = text := by
  rw [Draft.commentText]
  simp

theorem stands_long {text : List Char}
    (h : ∀ left right, '-' :: '-' :: text = left ++ ('-' :: '-' :: '}' :: '}' :: right) → False) :
    (Segment.comment ('-' :: '-' :: (text ++ ['-', '-']))).Stands := by
  have hsplit : '-' :: '-' :: (text ++ ['-', '-']) ++ ['}', '}'] =
      '-' :: '-' :: text ++ (['-', '-', '}', '}'] ++ []) := by simp
  have hbefore : textBefore ['-', '-', '}', '}'] ('-' :: '-' :: text ++ (['-', '-', '}', '}'] ++ [])) =
      some ('-' :: '-' :: text) := by
    refine (textBefore_eq_some_iff (by simp)).2 fun left right hparts hne hstarts => ?_
    rcases right with _ | ⟨first, _ | ⟨second, _ | ⟨third, _ | ⟨fourth, right⟩⟩⟩⟩
    · exact hne rfl
    · simp at hstarts
    · simp at hstarts
    · simp at hstarts
    · simp only [List.cons_append, List.cons_prefix_cons] at hstarts
      obtain ⟨rfl, rfl, rfl, rfl, -⟩ := hstarts
      exact h left right hparts
  have hlong : ['-', '-'].isPrefixOf ('-' :: '-' :: text ++ (['-', '-', '}', '}'] ++ [])) = true := rfl
  rw [Segment.Stands, commentBody, hsplit, if_pos hlong, hbefore]
  simp

theorem stands_long_nil : (Segment.comment ['-', '-', '-', '-']).Stands := rfl

theorem stands_commentText {body : List Char} (h : (Segment.comment body).Stands) :
    (Segment.comment ('-' :: '-' :: (Draft.commentText body ++ ['-', '-']))).Stands := by
  rw [Segment.Stands, commentBody] at h
  split at h
  · next hlong =>
    obtain ⟨content, hcontent, rfl⟩ := Option.map_eq_some_iff.1 h
    have hsplit : content ++ ['-', '-'] ++ ['}', '}'] = content ++ (['-', '-', '}', '}'] ++ []) := by simp
    rw [hsplit, textBefore_eq_some_iff (by simp)] at hcontent
    rcases content with _ | ⟨first, _ | ⟨second, rest⟩⟩
    · exact stands_long_nil
    · obtain rfl : '-' = first := by simpa [List.isPrefixOf] using hlong
      exact stands_long_nil
    · obtain ⟨rfl, rfl⟩ : '-' = first ∧ '-' = second := by simpa [List.isPrefixOf] using hlong
      rw [List.cons_append, List.cons_append, commentText_long]
      refine stands_long fun left right hparts => hcontent left _ hparts (by simp) ?_
      simp
  · next hshort =>
    have hbody : Draft.commentText body = body := by
      rw [Draft.commentText.eq_def]
      split
      · exact absurd rfl hshort
      · rfl
    have hbefore : textBefore ['}', '}'] (body ++ (['}', '}'] ++ [])) = some body := h
    rw [textBefore_eq_some_iff (by simp)] at hbefore
    rw [hbody]
    refine stands_long fun left right hparts => ?_
    have hbraces : ∃ before, body = before ++ ('}' :: '}' :: right) := by
      rcases left with _ | ⟨first, _ | ⟨second, left⟩⟩
      · exact ⟨[], by simpa using hparts⟩
      · exact ⟨['-'], by simpa using (List.cons.inj (List.cons.inj hparts).2).2⟩
      · exact ⟨left ++ ['-', '-'], by simpa using (List.cons.inj (List.cons.inj hparts).2).2⟩
    obtain ⟨before, hparts⟩ := hbraces
    exact hbefore before _ hparts (by simp) (by simp)

end Stencil
