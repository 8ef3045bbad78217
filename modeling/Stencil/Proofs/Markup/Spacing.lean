import Stencil.Proofs.Markup.Reading

/-!
# Words between single blanks

Well-formed words that are written with one blank before each of them, and one behind the last, are
a row of words again. A closing marker that is not found outside quotes before a blank in any of the
words is not found in the row. A body with a single bare word is what trimming leaves of it, and the
other way round.
-/

namespace Stencil

namespace Word

/-- The words with a blank before each of them and one behind the last. -/
def spaced (words : List Word) : List Char :=
  words.flatMap (fun word => ' ' :: word.raw) ++ [' ']

theorem spaced_cons (word : Word) (words : List Word) :
    spaced (word :: words) = ' ' :: (word.raw ++ spaced words) := by
  simp [spaced]

theorem endsBefore_spaced (words : List Word) : EndsBefore (spaced words) := by
  intro char hchar
  obtain rfl : ' ' = char := by
    cases words with
    | nil => simpa [spaced] using hchar
    | cons word words => simpa [spaced_cons] using hchar
  decide

theorem row_spaced {words : List Word} (h : ∀ word ∈ words, word.WellFormed) (place : Nat) :
    ∃ moved, Row place (spaced words) moved ∧ moved.map unplaced = words.map unplaced := by
  have hblank : isBlank ' ' = true := by decide
  induction words generalizing place with
  | nil => exact ⟨[], .blank hblank .nil, rfl⟩
  | cons word words ih =>
    have hword := h word (by simp)
    obtain ⟨moved, hrow, hsame⟩ := ih (fun other hother => h other (by simp [hother]))
      (place + ' '.utf8Size + byteSize word.raw)
    refine ⟨{ word with place := place + ' '.utf8Size + byteSize word.keyText } :: moved, ?_, ?_⟩
    · rw [spaced_cons]
      have hmoved := hword.moved (place + ' '.utf8Size + byteSize word.keyText)
      exact .blank hblank (.word hmoved rfl (endsBefore_spaced words) hrow)
    · rw [List.map_cons, List.map_cons, hsame]
      rfl

theorem Row.unique {place : Nat} {body : List Char} {words others : List Word}
    (h : Row place body words) (hother : Row place body others) : words = others := by
  have hsame := h.scan_eq.symm.trans hother.scan_eq
  rw [Scanned.mk.injEq] at hsame
  exact hsame.1

/-! ### Markers -/

/-- A marker that is not found in a body is not found in its words. -/
theorem Row.clear {place : Nat} {body marker tail : List Char} {words : List Word}
    (h : Row place body words) (hblank : ∀ char ∈ marker, isBlank char = false)
    (hclear : Clear marker tail body) :
    ∀ word ∈ words, Clear marker [' '] word.raw := by
  have hspace : ' ' ∉ marker := fun hmem => absurd (hblank ' ' hmem) (by decide)
  induction h with
  | nil => simp
  | @blank place char body words hchar _ ih =>
    refine ih (hclear.of_plain ?_).2
    intro heq
    obtain rfl := heq
    exact absurd hchar (by decide)
  | @word place word rest words hword _ hends _ ih =>
    obtain ⟨hraw, hrest⟩ := hclear.of_append hword.paired
    intro other hother
    rcases List.mem_cons.1 hother with rfl | hother
    · exact hraw.before hspace []
    · exact ih hrest other hother

theorem clear_spaced {marker tail : List Char} {words : List Word} (hspace : ' ' ∉ marker) (hne : marker ≠ [])
    (h : ∀ word ∈ words, Clear marker [' '] word.raw) : Clear marker tail (spaced words) := by
  have hplain : ∀ rest : List Char, ¬marker <+: ' ' :: rest := by
    intro rest hstarts
    obtain ⟨char, marker, rfl⟩ := List.exists_cons_of_ne_nil hne
    rw [List.cons_prefix_cons] at hstarts
    exact hspace (by simp [hstarts.1])
  induction words with
  | nil => exact .plain (by decide) (hplain _) .nil
  | cons word words ih =>
    have hwords := ih fun other hother => h other (by simp [hother])
    rw [spaced_cons]
    refine .plain (by decide) (hplain _) (Clear.append ?_ hwords)
    obtain ⟨rest, hrest⟩ : ∃ rest, spaced words = ' ' :: rest := by
      cases words with
      | nil => exact ⟨[], rfl⟩
      | cons next words => exact ⟨_, spaced_cons next words⟩
    rw [hrest]
    exact (h word (by simp)).before hspace _

/-! ### Single words -/

theorem trim_eq_of_ends {left middle right : List Char} (hleft : ∀ char ∈ left, isBlank char = true)
    (hright : ∀ char ∈ right, isBlank char = true) (hne : middle ≠ [])
    (hmiddle : ∀ char ∈ middle, isBlank char = false) : trim (left ++ (middle ++ right)) = middle := by
  have hdrop : (left ++ (middle ++ right)).dropWhile isBlank = middle ++ right := by
    obtain ⟨char, rest, rfl⟩ := List.exists_cons_of_ne_nil hne
    rw [List.dropWhile_append_of_pos hleft, List.cons_append, List.dropWhile_cons_of_neg]
    simp [hmiddle char (by simp)]
  have hback : (right.reverse ++ middle.reverse).dropWhile isBlank = middle.reverse := by
    obtain ⟨char, rest, hreverse⟩ := List.exists_cons_of_ne_nil (List.reverse_ne_nil_iff.2 hne)
    have hchar : char ∈ middle := List.mem_reverse.1 (by simp [hreverse])
    rw [List.dropWhile_append_of_pos (by simpa using hright), hreverse, List.dropWhile_cons_of_neg]
    simp [hmiddle char hchar]
  rw [trim, hdrop, List.reverse_append, hback, List.reverse_reverse]

theorem IsName.notBlank {text : List Char} (h : IsName text) : ∀ char ∈ text, isBlank char = false :=
  fun char hchar => (h.isBare.2.1 char hchar).1

theorem raw_bare (value : String) (place : Nat) : (⟨none, value, false, place⟩ : Word).raw = value.toList :=
  rfl

theorem wellFormed_bare {value : String} (h : IsName value.toList) (place : Nat) :
    (⟨none, value, false, place⟩ : Word).WellFormed :=
  ⟨by simp, by simp, fun _ => h.isBare, fun _ _ => h⟩

theorem Row.bare {place : Nat} {name rest : List Char} {words : List Word} (hname : IsName name)
    (h : Row (place + byteSize name) (' ' :: rest) words) :
    Row place (name ++ ' ' :: rest) (⟨none, String.ofList name, false, place⟩ :: words) := by
  have hends : EndsBefore (' ' :: rest) := by
    intro char hchar
    obtain rfl := Option.some.inj hchar
    decide
  have hword : WellFormed ⟨none, String.ofList name, false, place⟩ :=
    wellFormed_bare (by rwa [String.toList_ofList]) place
  have hraw : Word.raw ⟨none, String.ofList name, false, place⟩ = name := by
    rw [raw_bare, String.toList_ofList]
  have hrow := Row.word hword rfl hends (hraw.symm ▸ h)
  rwa [hraw] at hrow

theorem Row.blanks {place : Nat} {blanks rest : List Char} {words : List Word}
    (hblanks : ∀ char ∈ blanks, isBlank char = true)
    (h : Row (place + byteSize blanks) rest words) : Row place (blanks ++ rest) words := by
  induction blanks generalizing place with
  | nil => exact h
  | cons char blanks ih =>
    refine .blank (hblanks char (by simp)) (ih (fun other hother => hblanks other (by simp [hother])) ?_)
    rwa [byteSize, ← Nat.add_assoc] at h

/-- A body that trimming takes down to a bare word is a row of this word alone. -/
theorem row_of_trim {body : List Char} {value : String} (hvalue : IsName value.toList)
    (h : trim body = value.toList) (place : Nat) :
    ∃ found, Row place body [⟨none, value, false, found⟩] := by
  obtain ⟨left, right, hbody, hleft, hright⟩ := exists_of_trim body
  rw [h] at hbody
  refine ⟨place + byteSize left, ?_⟩
  have hends : EndsBefore right := fun char hchar => hright char (List.mem_of_mem_head? hchar)
  have hlast : Row (place + byteSize left + byteSize value.toList) right [] := by
    rw [← List.append_nil right]
    exact Row.blanks hright .nil
  have hword := Row.word (wellFormed_bare hvalue (place + byteSize left)) rfl hends hlast
  rw [hbody]
  exact Row.blanks hleft hword

theorem row_of_trim_else {body : List Char} (h : trim body = ['e', 'l', 's', 'e']) (place : Nat) :
    ∃ found, Row place body [⟨none, "else", false, found⟩] := by
  have hplain : ("else".toList.all isPlain) = true := rfl
  have hname : IsName "else".toList := ⟨by decide, List.all_eq_true.1 hplain⟩
  exact row_of_trim hname h place

theorem Row.blank_of_nil {place : Nat} {body : List Char} (h : Row place body []) :
    ∀ char ∈ body, isBlank char = true := by
  generalize hwords : ([] : List Word) = words at h
  induction h with
  | nil => simp
  | @blank place char body words hblank _ ih =>
    intro other hother
    rcases List.mem_cons.1 hother with rfl | hother
    · exact hblank
    · exact ih hwords other hother
  | word => simp at hwords

theorem Row.trim_eq {place found : Nat} {body : List Char} {value : String}
    (h : Row place body [⟨none, value, false, found⟩]) : trim body = value.toList := by
  have hname : IsName value.toList := (h.wellFormed _ List.mem_cons_self).name rfl rfl
  obtain ⟨left, right, rfl, hleft, hright⟩ : ∃ left right, body = left ++ (value.toList ++ right) ∧
      (∀ char ∈ left, isBlank char = true) ∧ ∀ char ∈ right, isBlank char = true := by
    generalize hwords : [(⟨none, value, false, found⟩ : Word)] = words at h
    induction h with
    | nil => simp at hwords
    | @blank place char body words hblank _ ih =>
      obtain ⟨left, right, rfl, hleft, hright⟩ := ih hwords
      refine ⟨char :: left, right, rfl, fun other hother => ?_, hright⟩
      rcases List.mem_cons.1 hother with rfl | hother
      · exact hblank
      · exact hleft other hother
    | word _ _ _ hrest =>
      obtain ⟨rfl, rfl⟩ := List.cons.inj hwords
      exact ⟨[], _, rfl, by simp, hrest.blank_of_nil⟩
  exact trim_eq_of_ends hleft hright hname.1 hname.notBlank

theorem trim_spaced_bare {value : String} (h : IsName value.toList) (place : Nat) :
    trim (spaced [⟨none, value, false, place⟩]) = value.toList := by
  have hspaced : spaced [⟨none, value, false, place⟩] = [' '] ++ (value.toList ++ [' ']) := by
    simp [spaced, raw_bare]
  rw [hspaced]
  have hblank : ∀ char ∈ [' '], isBlank char = true := List.forall_mem_singleton.2 rfl
  exact trim_eq_of_ends hblank hblank h.1 h.notBlank

end Word

end Stencil
