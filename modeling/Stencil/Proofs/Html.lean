import Stencil.Html

/-!
# Escaped text is inert

Text is inert in HTML if its special characters only stand in entities. Escaped text is, and inert
text stays so when it is put together. In such text no special character but an ampersand occurs,
and every ampersand begins an entity.
-/

namespace Stencil.Html

theorem escape_of_plain {text : String} (h : ∀ char ∈ text.toList, entity? char = none) : escape text = text := by
  have hflat : ∀ chars : List Char, (∀ char ∈ chars, entity? char = none) → chars.flatMap escapeChar = chars := by
    intro chars hchars
    induction chars with
    | nil => rfl
    | cons char rest ih =>
      rw [List.forall_mem_cons] at hchars
      rw [List.flatMap_cons, ih hchars.2, escapeChar, hchars.1]
      rfl
  rw [escape, hflat text.toList h, String.ofList_toList]

theorem entity?_of_isDigit {char : Char} (h : char.isDigit = true) : entity? char = none := by
  rw [entity?.eq_def]
  split
  case h_7 => rfl
  all_goals cases h

/-- Characters that are not special, and entities. -/
inductive Inert : List Char → Prop where
  | nil : Inert []
  | plain {char : Char} {rest : List Char} : entity? char = none → Inert rest → Inert (char :: rest)
  | entity {special : Char} {entity rest : List Char} : entity? special = some entity → Inert rest →
    Inert (entity ++ rest)

theorem entity_eq {special : Char} {entity : List Char} (h : entity? special = some entity) :
    ∃ tail, entity = '&' :: tail ∧ ∀ char ∈ tail, entity? char = none := by
  rw [entity?.eq_def] at h
  split at h
  case h_7 => cases h
  all_goals
    obtain rfl := Option.some.inj h
    refine ⟨_, rfl, ?_⟩
    simp only [List.forall_mem_cons, List.not_mem_nil, false_implies, implies_true, and_true]
    decide

namespace Inert

theorem append {left right : List Char} (hleft : Inert left) (hright : Inert right) :
    Inert (left ++ right) := by
  induction hleft with
  | nil => exact hright
  | plain hchar _ ih => exact .plain hchar ih
  | entity hspecial _ ih =>
    rw [List.append_assoc]
    exact .entity hspecial ih

theorem of_plain {text : List Char} (h : ∀ char ∈ text, entity? char = none) : Inert text := by
  induction text with
  | nil => exact .nil
  | cons char rest ih => exact .plain (h char (by simp)) (ih fun other hother => h other (by simp [hother]))

theorem escaped (text : String) : Inert (escape text).toList := by
  rw [escape, String.toList_ofList]
  induction text.toList with
  | nil => exact .nil
  | cons char rest ih =>
    rw [List.flatMap_cons, escapeChar]
    cases hchar : entity? char with
    | none => exact .plain hchar ih
    | some entity => exact .entity hchar ih

theorem eq_ampersand {text : List Char} (h : Inert text) :
    ∀ char ∈ text, entity? char ≠ none → char = '&' := by
  induction h with
  | nil => simp
  | plain hchar _ ih =>
    intro char hmem hspecial
    rcases List.mem_cons.1 hmem with rfl | hmem
    · exact absurd hchar hspecial
    · exact ih char hmem hspecial
  | entity hentity _ ih =>
    obtain ⟨tail, rfl, htail⟩ := entity_eq hentity
    intro char hmem hspecial
    rcases List.mem_append.1 hmem with hmem | hmem
    · rcases List.mem_cons.1 hmem with rfl | hmem
      · rfl
      · exact absurd (htail char hmem) hspecial
    · exact ih char hmem hspecial

theorem entity_of_ampersand {text before after : List Char} (h : Inert text)
    (htext : text = before ++ '&' :: after) :
    ∃ special entity, entity? special = some entity ∧ entity <+: '&' :: after := by
  induction h generalizing before with
  | nil => simp at htext
  | plain hchar _ ih =>
    cases before with
    | nil =>
      obtain ⟨rfl, -⟩ := List.cons.inj htext
      cases hchar
    | cons first before => exact ih (List.cons.inj htext).2
  | @entity special entity rest hentity _ ih =>
    rcases List.append_eq_append_iff.1 htext with ⟨more, rfl, hrest⟩ | ⟨more, hbefore, hafter⟩
    · exact ih hrest
    · cases more with
      | nil =>
        have hrest : rest = [] ++ '&' :: after := hafter.symm
        exact ih hrest
      | cons first more =>
        obtain ⟨rfl, rfl⟩ := List.cons.inj hafter
        obtain ⟨tail, htail, hplain⟩ := entity_eq hentity
        cases before with
        | nil => exact ⟨special, entity, hentity, hbefore ▸ ⟨rest, rfl⟩⟩
        | cons first before =>
          obtain ⟨-, rfl⟩ := List.cons.inj (htail.symm.trans hbefore)
          exact absurd (hplain '&' (by simp)) (by decide)

end Inert

end Stencil.Html
