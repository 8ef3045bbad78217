import Stencil.Text.Quoted
import Mathlib.Data.List.Basic

/-!
# Quoted content

Where a quoted string ends does not depend on what follows it, so a content that can stand between
quotes can stand there anywhere. A text is paired if every quote in it starts or ends a quoted
string that lies in the text as a whole. Writing a backslash in front of each quote of a string
gives back the content the string was read from.
-/

namespace Stencil

/-- A content that its closing quote ends, and no quote before. -/
def IsQuotable (content : List Char) : Prop :=
  quotedContent false (content ++ ['"']) = some content

theorem exists_of_quotedContent {guarded : Bool} {text content : List Char}
    (h : quotedContent guarded text = some content) : ∃ rest, text = content ++ '"' :: rest := by
  induction text generalizing guarded content with
  | nil => simp [quotedContent] at h
  | cons char rest ih =>
    rw [quotedContent] at h
    split at h
    · obtain ⟨tail, htail, rfl⟩ := Option.map_eq_some_iff.1 h
      obtain ⟨after, rfl⟩ := ih htail
      exact ⟨after, rfl⟩
    · split at h
      · next hquote =>
        obtain rfl : [] = content := by simpa using h
        exact ⟨rest, by rw [hquote.1, List.nil_append]⟩
      · obtain ⟨tail, htail, rfl⟩ := Option.map_eq_some_iff.1 h
        obtain ⟨after, rfl⟩ := ih htail
        exact ⟨after, rfl⟩

theorem quotedContent_irrelevant (guarded : Bool) (content rest : List Char) :
    quotedContent guarded (content ++ '"' :: rest) = some content ↔
      quotedContent guarded (content ++ ['"']) = some content := by
  induction content generalizing guarded with
  | nil => cases guarded <;> simp [quotedContent]
  | cons char content ih =>
    rw [List.cons_append, List.cons_append, quotedContent, quotedContent]
    have hcons : ∀ found : Option (List Char),
        found.map (char :: ·) = some (char :: content) ↔ found = some content := by
      intro found
      cases found <;> simp
    split
    · rw [hcons, hcons, ih]
    · split
      · simp
      · rw [hcons, hcons, ih]

theorem IsQuotable.quotedContent {content : List Char} (h : IsQuotable content) (rest : List Char) :
    quotedContent false (content ++ '"' :: rest) = some content :=
  (quotedContent_irrelevant false content rest).2 h

theorem isQuotable_of_quotedContent {text content : List Char}
    (h : quotedContent false text = some content) :
    IsQuotable content ∧ ∃ rest, text = content ++ '"' :: rest := by
  obtain ⟨rest, rfl⟩ := exists_of_quotedContent h
  exact ⟨(quotedContent_irrelevant false content rest).1 h, rest, rfl⟩

/-! ### Strings and their contents -/

/-- The content that denotes a string: a backslash stands before each quote. -/
def enquote (text : List Char) : List Char :=
  text.flatMap fun char => if char = '"' then ['\\', '"'] else [char]

/-- A content reads as a string that is written as the content, also from its middle, where the next
character may be guarded but is no quote. -/
theorem enquote_unquote_of_guarded (guarded : Bool) (content : List Char)
    (h : quotedContent guarded (content ++ ['"']) = some content)
    (hhead : guarded = true → content.head? ≠ some '"') : enquote (unquote content) = content := by
  induction content using unquote.induct generalizing guarded with
  | case1 => rfl
  | case2 char =>
    have hchar : char ≠ '"' := by
      intro heq
      obtain rfl := heq
      cases guarded
      · simp [quotedContent] at h
      · exact hhead rfl rfl
    simp [unquote, enquote, hchar]
  | case3 char next rest hescape ih =>
    obtain ⟨rfl, rfl⟩ := hescape
    cases guarded
    · have hrest : quotedContent false (rest ++ ['"']) = some rest := by
        simpa [quotedContent] using h
      rw [unquote, if_pos ⟨rfl, rfl⟩]
      change '\\' :: '"' :: enquote (unquote rest) = _
      rw [ih false hrest (by simp)]
    · simp [quotedContent] at h
  | case4 char next rest hplain ih =>
    have hchar : char ≠ '"' := by
      intro heq
      obtain rfl := heq
      cases guarded
      · simp [quotedContent] at h
      · exact hhead rfl rfl
    have hcons : enquote (char :: unquote (next :: rest)) = char :: enquote (unquote (next :: rest)) := by
      simp [enquote, hchar]
    rw [unquote, if_neg hplain, hcons]
    congr 1
    rw [List.cons_append, quotedContent] at h
    by_cases hslash : char = '\\'
    · rw [if_pos hslash] at h
      refine ih (!guarded) (by simpa using h) fun _ hnext => hplain ⟨hslash, ?_⟩
      simpa using hnext
    · rw [if_neg hslash, if_neg (fun hquote => hchar hquote.1)] at h
      exact ih false (by simpa using h) (by simp)

theorem enquote_unquote {content : List Char} (h : IsQuotable content) :
    enquote (unquote content) = content :=
  enquote_unquote_of_guarded false content h (by simp)

/-! ### Paired texts -/

/-- A text in which every quote starts or ends a quoted string of the text. -/
inductive Paired : List Char → Prop where
  | nil : Paired []
  | plain {char : Char} {rest : List Char} : char ≠ '"' → Paired rest → Paired (char :: rest)
  | quoted {content rest : List Char} :
    IsQuotable content → Paired rest → Paired ('"' :: (content ++ '"' :: rest))

theorem Paired.append {left right : List Char} (hleft : Paired left) (hright : Paired right) :
    Paired (left ++ right) := by
  induction hleft with
  | nil => exact hright
  | plain hchar _ ih => exact .plain hchar ih
  | quoted hcontent _ ih =>
    rw [List.cons_append, List.append_assoc, List.cons_append]
    exact .quoted hcontent ih

theorem paired_of_quoteless {text : List Char} (h : '"' ∉ text) : Paired text := by
  induction text with
  | nil => exact .nil
  | cons char rest ih =>
    rw [List.mem_cons, not_or] at h
    exact .plain (Ne.symm h.1) (ih h.2)

end Stencil
