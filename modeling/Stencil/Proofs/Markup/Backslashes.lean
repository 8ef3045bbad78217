import Stencil.Proofs.Markup.Quoting
import Mathlib.Algebra.Ring.Parity

/-!
# Runs of backslashes

Whether a quote in a content is guarded depends on the backslashes right in front of it alone: it is
if their number is odd. So a content can stand between quotes exactly if the number is odd in front
of each of its quotes and even at its end. Writing a string puts one more backslash in front of each
quote, so a string can be written exactly if the number is even in front of each of its quotes and
at its end.
-/

namespace Stencil

/-- The number of backslashes that a text ends with. -/
def slashRun (text : List Char) : Nat :=
  (text.reverse.takeWhile (· == '\\')).length

theorem slashRun_slash (text : List Char) : slashRun (text ++ ['\\']) = slashRun text + 1 := by
  rw [slashRun, List.reverse_concat, List.takeWhile_cons_of_pos rfl, List.length_cons, slashRun]

theorem slashRun_of_ne {char : Char} (h : char ≠ '\\') (text : List Char) : slashRun (text ++ [char]) = 0 := by
  rw [slashRun, List.reverse_concat, List.takeWhile_cons_of_neg (by simpa using h), List.length_nil]

/-- A text that stands behind another one, with numbers of backslashes of one kind in front of its
quotes, and an even number at its end. -/
structure SlashRuns (kind : Nat → Prop) (front text : List Char) : Prop where
  quotes : ∀ before after, text = before ++ '"' :: after → kind (slashRun (front ++ before))
  stop : Even (slashRun (front ++ text))

section

variable {kind : Nat → Prop} {front text : List Char}

theorem slashRuns_nil_iff : SlashRuns kind front [] ↔ Even (slashRun front) := by
  constructor
  · intro h
    simpa using h.stop
  · intro h
    exact ⟨by simp, by simpa using h⟩

theorem slashRuns_cons_iff {char : Char} :
    SlashRuns kind front (char :: text) ↔
      (char = '"' → kind (slashRun front)) ∧ SlashRuns kind (front ++ [char]) text := by
  constructor
  · intro h
    refine ⟨?_, ?_, ?_⟩
    · rintro rfl
      simpa using h.quotes [] text rfl
    · intro before after heq
      have hquote := h.quotes (char :: before) after (by rw [heq, List.cons_append])
      simpa using hquote
    · simpa using h.stop
  · rintro ⟨hfirst, hrest⟩
    refine ⟨?_, by simpa using hrest.stop⟩
    intro before after heq
    cases before with
    | nil =>
      obtain ⟨rfl, -⟩ := List.cons.inj heq
      simpa using hfirst rfl
    | cons first before =>
      obtain ⟨rfl, htext⟩ := List.cons.inj heq
      simpa using hrest.quotes before after htext

end

/-! ### Contents -/

section

variable {guarded : Bool} {front : List Char}

theorem map_cons_eq_some_iff {char : Char} {content : List Char} {found : Option (List Char)} :
    found.map (char :: ·) = some (char :: content) ↔ found = some content := by
  cases found <;> simp

/-- The flag of the reader says whether the number of backslashes that it has just read is odd. -/
theorem quotedContent_eq_iff (hguarded : guarded = true ↔ Odd (slashRun front)) (content : List Char) :
    quotedContent guarded (content ++ ['"']) = some content ↔ SlashRuns Odd front content := by
  induction content generalizing guarded front with
  | nil =>
    rw [slashRuns_nil_iff, ← Nat.not_odd_iff_even, ← hguarded]
    cases guarded <;> simp [quotedContent]
  | cons char content ih =>
    rw [List.cons_append, quotedContent, slashRuns_cons_iff]
    by_cases hslash : char = '\\'
    · subst hslash
      have hnext : (!guarded) = true ↔ Odd (slashRun (front ++ ['\\'])) := by
        rw [slashRun_slash, Nat.odd_add_one, ← hguarded, Bool.not_eq_true', Bool.not_eq_true]
      rw [if_pos rfl, map_cons_eq_some_iff, ih hnext]
      simp
    · have hnext : false = true ↔ Odd (slashRun (front ++ [char])) := by
        simp [slashRun_of_ne hslash]
      rw [if_neg hslash]
      by_cases hquote : char = '"'
      · subst hquote
        rw [← hguarded]
        cases guarded with
        | false => simp
        | true => rw [if_neg (by simp), map_cons_eq_some_iff, ih hnext]; simp
      · rw [if_neg fun h => hquote h.1, map_cons_eq_some_iff, ih hnext]
        simp [hquote]

theorem forall_quote_cons_iff {property : List Char → Prop} {char : Char} {text : List Char} :
    (∀ before after, char :: text = before ++ '"' :: after → property before) ↔
      (char = '"' → property []) ∧
        ∀ before after, text = before ++ '"' :: after → property (char :: before) := by
  constructor
  · intro h
    refine ⟨?_, fun before after heq => h (char :: before) after (by rw [heq, List.cons_append])⟩
    rintro rfl
    exact h [] text rfl
  · rintro ⟨hfirst, hrest⟩ before after heq
    cases before with
    | nil => exact hfirst (List.cons.inj heq).1
    | cons first before =>
      obtain ⟨rfl, htext⟩ := List.cons.inj heq
      exact hrest before after htext

/-- Nothing ends a string exactly if an odd number of backslashes stands in front of each quote. -/
theorem quotedContent_eq_none_iff (hguarded : guarded = true ↔ Odd (slashRun front)) (text : List Char) :
    quotedContent guarded text = none ↔
      ∀ before after, text = before ++ '"' :: after → Odd (slashRun (front ++ before)) := by
  induction text generalizing guarded front with
  | nil => simp [quotedContent]
  | cons char text ih =>
    have hnext : (if char = '\\' then !guarded else false) = true ↔ Odd (slashRun (front ++ [char])) := by
      by_cases hslash : char = '\\'
      · rw [if_pos hslash, hslash, slashRun_slash, Nat.odd_add_one, ← hguarded, Bool.not_eq_true',
          Bool.not_eq_true]
      · simp [hslash, slashRun_of_ne hslash]
    have hrest := ih hnext
    simp only [List.append_assoc, List.singleton_append] at hrest
    rw [quotedContent, forall_quote_cons_iff, ← hrest, List.append_nil, ← hguarded]
    by_cases hslash : char = '\\'
    · simp [hslash]
    · by_cases hquote : char = '"'
      · cases guarded <;> simp [hquote]
      · simp [hslash, hquote]

theorem quotedContent_false_eq_none_iff {text : List Char} :
    quotedContent false text = none ↔ ∀ before after, text = before ++ '"' :: after → Odd (slashRun before) :=
  @quotedContent_eq_none_iff false [] (by simp [slashRun]) text

/-- A content can stand between quotes exactly if an odd number of backslashes stands in front of
each quote in it, and an even number at its end. -/
theorem isQuotable_iff_slashRuns {content : List Char} : IsQuotable content ↔ SlashRuns Odd [] content :=
  quotedContent_eq_iff (by simp [slashRun]) content

end

/-! ### Strings -/

theorem enquote_quote (text : List Char) : enquote ('"' :: text) = '\\' :: '"' :: enquote text :=
  rfl

theorem enquote_of_ne {char : Char} (h : char ≠ '"') (text : List Char) :
    enquote (char :: text) = char :: enquote text := by
  simp [enquote, h]

theorem slashRuns_enquote_iff {front front' text : List Char} (hfront : slashRun front = slashRun front') :
    SlashRuns Odd front (enquote text) ↔ SlashRuns Even front' text := by
  induction text generalizing front front' with
  | nil => rw [enquote, List.flatMap_nil, slashRuns_nil_iff, slashRuns_nil_iff, hfront]
  | cons char text ih =>
    by_cases hquote : char = '"'
    · subst hquote
      have hnext : slashRun (front ++ ['\\'] ++ ['"']) = slashRun (front' ++ ['"']) := by
        rw [slashRun_of_ne (by decide), slashRun_of_ne (by decide)]
      rw [enquote_quote, slashRuns_cons_iff, slashRuns_cons_iff, slashRuns_cons_iff, ih hnext, slashRun_slash,
        hfront, Nat.odd_add_one, Nat.not_odd_iff_even]
      simp
    · have hnext : slashRun (front ++ [char]) = slashRun (front' ++ [char]) := by
        by_cases hslash : char = '\\'
        · rw [hslash, slashRun_slash, slashRun_slash, hfront]
        · rw [slashRun_of_ne hslash, slashRun_of_ne hslash]
      rw [enquote_of_ne hquote, slashRuns_cons_iff, slashRuns_cons_iff, ih hnext]
      simp [hquote]

theorem isQuotable_enquote_iff {text : List Char} : IsQuotable (enquote text) ↔ SlashRuns Even [] text := by
  rw [isQuotable_iff_slashRuns, slashRuns_enquote_iff rfl]

theorem head?_enquote (text : List Char) : (enquote text).head? ≠ some '"' := by
  cases text with
  | nil => simp [enquote]
  | cons char text =>
    by_cases hquote : char = '"'
    · simp [hquote, enquote_quote]
    · simp [enquote_of_ne hquote, hquote]

theorem unquote_cons {char : Char} {rest : List Char} (h : char = '\\' → rest.head? ≠ some '"') :
    unquote (char :: rest) = char :: unquote rest := by
  cases rest with
  | nil => rfl
  | cons next rest =>
    rw [unquote, if_neg]
    rintro ⟨hslash, rfl⟩
    exact h hslash rfl

/-- A string is what its written form denotes, whether or not that can stand between quotes. -/
theorem unquote_enquote (text : List Char) : unquote (enquote text) = text := by
  induction text with
  | nil => rfl
  | cons char text ih =>
    by_cases hquote : char = '"'
    · rw [hquote, enquote_quote, unquote, if_pos ⟨rfl, rfl⟩, ih]
    · rw [enquote_of_ne hquote, unquote_cons fun _ => head?_enquote text, ih]

end Stencil
