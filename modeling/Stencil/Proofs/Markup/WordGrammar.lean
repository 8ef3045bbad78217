import Stencil.Proofs.Checked.Slice
import Stencil.Proofs.Markup.Backslashes
import Stencil.Proofs.Markup.Tokenization
import Stencil.Proofs.Markup.WordRow

/-!
# The grammar of words

A word is bare or a quoted string, with or without a key, and a blank or the end follows it. A body
is read word by word, over the blanks between them, up to its end or to the first place where no
word stands. All that is read then are the words in front of this place, and one error.
-/

namespace Stencil

/-- What a scan gives when it is read one by one: its items, then its failure if there is one. -/
def Scanned.yields {ε α : Type} (scanned : Scanned ε α) : List (Except ε α) :=
  scanned.items.map .ok ++ scanned.failure.toList.map .error

namespace Scanned

variable {ε α : Type}

theorem yields_injective : Function.Injective (yields : Scanned ε α → List (Except ε α)) := by
  intro ⟨items, failure⟩ ⟨others, other⟩ h
  induction items generalizing others with
  | nil => cases others <;> cases failure <;> cases other <;> simp_all [yields]
  | cons item items ih =>
    cases others with
    | nil => cases other <;> simp [yields] at h
    | cons head others =>
      obtain ⟨hitem, hrest⟩ := List.cons.inj h
      have htail := ih others hrest
      simp only [mk.injEq] at htail
      rw [Except.ok.inj hitem, htail.1, htail.2]

theorem yields_eq_map_ok_iff {scanned : Scanned ε α} {found : List α} :
    scanned.yields = found.map .ok ↔ scanned = ⟨found, none⟩ := by
  have hfound : found.map .ok = (⟨found, none⟩ : Scanned ε α).yields := by simp [yields]
  rw [hfound, yields_injective.eq_iff]

theorem yields_cases (scanned : Scanned ε α) :
    scanned.yields = scanned.items.map .ok ∨
      ∃ failure, scanned.yields = scanned.items.map .ok ++ [.error failure] := by
  obtain ⟨items, _ | failure⟩ := scanned
  · exact .inl (List.append_nil _)
  · exact .inr ⟨failure, rfl⟩

theorem yields_eq_append_error_iff {scanned : Scanned ε α} {found : List α} {failure : ε} :
    scanned.yields = found.map .ok ++ [.error failure] ↔ scanned = ⟨found, some failure⟩ :=
  yields_injective.eq_iff (b := ⟨found, some failure⟩)

end Scanned

namespace Word

/-! ### Words -/

/-- How a word is written, and where its value stands if the word starts at a place. -/
inductive Spelled (place : Nat) : Word → List Char → Prop where
  | bare {value : String} : IsName value.toList → Spelled place ⟨none, value, false, place⟩ value.toList
  | quoted {content : String} :
    SlashRuns Odd [] content.toList →
    Spelled place ⟨none, content, true, place⟩ ('"' :: (content.toList ++ ['"']))
  | keyedBare {key value : String} :
    IsName key.toList → IsBare value.toList →
    Spelled place ⟨some key, value, false, place + byteSize key.toList + 1⟩
      (key.toList ++ '=' :: value.toList)
  | keyedQuoted {key content : String} :
    IsName key.toList → SlashRuns Odd [] content.toList →
    Spelled place ⟨some key, content, true, place + byteSize key.toList + 1⟩
      (key.toList ++ '=' :: '"' :: (content.toList ++ ['"']))

/-- The words of the grammar are the well-formed words at their places. -/
theorem spelled_iff {place : Nat} {word : Word} {text : List Char} :
    Spelled place word text ↔
      word.WellFormed ∧ word.place = place + byteSize word.keyText ∧ text = word.raw := by
  have hequals : '='.utf8Size = 1 := by decide
  constructor
  · intro h
    cases h with
    | bare hvalue => exact ⟨⟨by simp, by simp, fun _ => hvalue.isBare, fun _ _ => hvalue⟩, rfl, rfl⟩
    | quoted hcontent =>
      exact ⟨⟨by simp, fun _ => isQuotable_iff_slashRuns.2 hcontent, by simp, by simp⟩, rfl, rfl⟩
    | keyedBare hkey hvalue =>
      refine ⟨⟨by simpa using hkey, by simp, fun _ => hvalue, by simp⟩, ?_, ?_⟩
      · simp [keyText, byteSize, hequals, Nat.add_assoc]
      · simp [raw_eq, keyText, valueText]
    | keyedQuoted hkey hcontent =>
      refine ⟨⟨by simpa using hkey, fun _ => isQuotable_iff_slashRuns.2 hcontent, by simp, by simp⟩, ?_, ?_⟩
      · simp [keyText, byteSize, hequals, Nat.add_assoc]
      · simp [raw_eq, keyText, valueText]
  · rintro ⟨hword, hplace, rfl⟩
    obtain ⟨_ | key, value, _ | _, found⟩ := word
    · obtain rfl : found = place := by simpa [keyText, byteSize] using hplace
      exact .bare (hword.name rfl rfl)
    · obtain rfl : found = place := by simpa [keyText, byteSize] using hplace
      exact .quoted (isQuotable_iff_slashRuns.1 (hword.quoted rfl))
    · obtain rfl : found = place + byteSize key.toList + 1 := by
        simpa [keyText, byteSize, hequals, Nat.add_assoc] using hplace
      have hspelled : Spelled place ⟨some key, value, false, place + byteSize key.toList + 1⟩ _ :=
        .keyedBare (hword.key key rfl) (hword.bare rfl)
      simpa [raw_eq, keyText, valueText] using hspelled
    · obtain rfl : found = place + byteSize key.toList + 1 := by
        simpa [keyText, byteSize, hequals, Nat.add_assoc] using hplace
      have hspelled : Spelled place ⟨some key, value, true, place + byteSize key.toList + 1⟩ _ :=
        .keyedQuoted (hword.key key rfl) (isQuotable_iff_slashRuns.1 (hword.quoted rfl))
      simpa [raw_eq, keyText, valueText] using hspelled

/-! ### Bodies -/

/-- A body, read from a place on, consists of words and blanks up to another place, with the rest
behind it. A blank or the end follows each word. -/
inductive Worded : Nat → List Char → List Word → Nat → List Char → Prop where
  | nil {place : Nat} {rest : List Char} : Worded place rest [] place rest
  | blank {place stop : Nat} {char : Char} {body rest : List Char} {words : List Word} :
    isBlank char = true → Worded (place + char.utf8Size) body words stop rest →
    Worded place (char :: body) words stop rest
  | word {place stop : Nat} {word : Word} {text body rest : List Char} {words : List Word} :
    Spelled place word text → EndsBefore body → Worded (place + byteSize text) body words stop rest →
    Worded place (text ++ body) (word :: words) stop rest

/-- No blank starts the text, and no word that a blank or the end follows. -/
structure Stuck (place : Nat) (text : List Char) : Prop where
  head : ∃ char rest, text = char :: rest ∧ isBlank char = false
  word : ∀ word front rest, Spelled place word front → text = front ++ rest → ¬EndsBefore rest

theorem Worded.words_eq {place stop : Nat} {body rest : List Char} {found : List Word}
    (h : Worded place body found stop rest) :
    words place body = ⟨found ++ (words stop rest).items, (words stop rest).failure⟩ := by
  induction h with
  | nil => rfl
  | blank hblank _ ih => rw [words, scan_blank hblank, ← words, ih]
  | word hspelled hends _ ih =>
    obtain ⟨hword, hplace, rfl⟩ := spelled_iff.1 hspelled
    rw [words, scan_word hword (read_of_wellFormed hword hends hplace), ← words, ih]
    rfl

theorem Stuck.words_eq {place : Nat} {text : List Char} (h : Stuck place text) :
    ∃ fault, words place text = ⟨[], some fault⟩ := by
  obtain ⟨char, rest, rfl, hblank⟩ := h.head
  cases hread : read place (char :: rest) with
  | error fault =>
    refine ⟨fault, ?_⟩
    rw [words, scan, step, if_neg (by simp [hblank]), hread]
    rfl
  | ok word =>
    obtain ⟨after, hsplit, hword, hends, hplace⟩ := exists_of_read hread
    exact absurd hends (h.word word word.raw after (spelled_iff.2 ⟨hword, hplace, rfl⟩) hsplit)

theorem exists_worded (place : Nat) (body : List Char) :
    ∃ found stop rest, Worded place body found stop rest ∧
      (rest = [] ∧ stop = place + byteSize body ∨ Stuck stop rest) := by
  induction hlength : body.length using Nat.strong_induction_on generalizing place body with
  | _ length ih =>
    cases body with
    | nil => exact ⟨[], place, [], .nil, .inl ⟨rfl, rfl⟩⟩
    | cons char rest =>
      by_cases hblank : isBlank char = true
      · obtain ⟨found, stop, left, hworded, hend⟩ :=
          ih rest.length (by simp [← hlength]) (place + char.utf8Size) rest rfl
        rw [Nat.add_assoc] at hend
        exact ⟨found, stop, left, .blank hblank hworded, hend⟩
      · by_cases hword : ∃ word front after,
          Spelled place word front ∧ char :: rest = front ++ after ∧ EndsBefore after
        · obtain ⟨word, front, after, hspelled, hsplit, hends⟩ := hword
          have hpos : 0 < front.length := by
            obtain ⟨hwell, -, rfl⟩ := spelled_iff.1 hspelled
            obtain ⟨first, raw, hraw, -⟩ := hwell.raw_head
            simp [hraw]
          have hlt : after.length < length := by
            rw [← hlength, hsplit, List.length_append]
            omega
          obtain ⟨found, stop, left, hworded, hend⟩ := ih after.length hlt (place + byteSize front) after rfl
          refine ⟨word :: found, stop, left, ?_, ?_⟩
          · rw [hsplit]
            exact .word hspelled hends hworded
          · rw [hsplit, byteSize_append, ← Nat.add_assoc]
            exact hend
        · refine ⟨[], place, char :: rest, .nil, .inr ⟨⟨char, rest, rfl, by simpa using hblank⟩, ?_⟩⟩
          intro word front after hspelled hsplit hends
          exact hword ⟨word, front, after, hspelled, hsplit, hends⟩

/-- A body is read to its end exactly if it consists of words and blanks. -/
theorem words_eq_iff_worded {place : Nat} {body : List Char} {found : List Word} :
    words place body = ⟨found, none⟩ ↔ Worded place body found (place + byteSize body) [] := by
  constructor
  · intro h
    obtain ⟨others, stop, rest, hworded, ⟨rfl, rfl⟩ | hstuck⟩ := exists_worded place body
    · have hothers := hworded.words_eq.symm.trans h
      obtain rfl : others = found := by simpa [words, scan] using hothers
      exact hworded
    · obtain ⟨fault, hfault⟩ := hstuck.words_eq
      have hothers := hworded.words_eq.symm.trans h
      simp [hfault] at hothers
  · intro h
    rw [h.words_eq]
    simp [words, scan]

/-- A body is read up to an error exactly if it consists of words and blanks up to a place where no
word stands. -/
theorem words_failure_iff_stuck {place : Nat} {body : List Char} {found : List Word} :
    (∃ fault, words place body = ⟨found, some fault⟩) ↔
      ∃ stop rest, Worded place body found stop rest ∧ Stuck stop rest := by
  constructor
  · rintro ⟨fault, h⟩
    obtain ⟨others, stop, rest, hworded, ⟨rfl, rfl⟩ | hstuck⟩ := exists_worded place body
    · have hothers := hworded.words_eq.symm.trans h
      simp [words, scan] at hothers
    · obtain ⟨other, hother⟩ := hstuck.words_eq
      have hothers := hworded.words_eq.symm.trans h
      obtain ⟨rfl, -⟩ : others = found ∧ other = fault := by simpa [hother] using hothers
      exact ⟨stop, rest, hworded, hstuck⟩
  · rintro ⟨stop, rest, hworded, hstuck⟩
    obtain ⟨fault, hfault⟩ := hstuck.words_eq
    refine ⟨fault, ?_⟩
    rw [hworded.words_eq, hfault, List.append_nil]

end Word

theorem Span.Bounds.stop_eq {source : List Char} {span : Span} (h : span.Bounds source) :
    span.stop = span.start + byteSize (span.slice source) := by
  obtain ⟨text, ⟨before, after, rfl, hbefore⟩, hstop⟩ := h.start.standsAt h.stop h.ordered
  have hspan : span = ⟨byteSize before, byteSize before + byteSize text⟩ := by
    rw [hbefore, ← hstop]
  rw [hstop, hspan, Span.slice_append]

/-- **The grammar of tag bodies.** Take any part of a text that a span bounds. It gives words alone,
or words and then one error. It gives words alone exactly if it consists of them, with blanks
between, and these are the words that it gives. It gives an error exactly if it consists of words up
to a place where no word stands: then it gives the words in front of the place. -/
theorem words_yields_iff {source : List Char} {span : Span} (hspan : span.Bounds source) :
    (∃ found : List Word,
      (words span.start (span.slice source)).yields = found.map .ok ∨
        ∃ fault, (words span.start (span.slice source)).yields = found.map .ok ++ [.error fault]) ∧
    (∀ found : List Word,
      (words span.start (span.slice source)).yields = found.map .ok ↔
        Word.Worded span.start (span.slice source) found span.stop []) ∧
    ∀ found : List Word,
      (∃ fault, (words span.start (span.slice source)).yields = found.map .ok ++ [.error fault]) ↔
        ∃ place rest, Word.Worded span.start (span.slice source) found place rest ∧ Word.Stuck place rest := by
  refine ⟨⟨_, (words span.start (span.slice source)).yields_cases⟩, ?_, ?_⟩
  · intro found
    rw [Scanned.yields_eq_map_ok_iff, Word.words_eq_iff_worded, hspan.stop_eq]
  · intro found
    simp only [Scanned.yields_eq_append_error_iff]
    exact Word.words_failure_iff_stuck

/-- Two words, one of them behind a key of two bytes, stand in front of a word with a quote in its
middle. -/
theorem words_yields_iff_misplaced_quote :
    let source := "\x7b\x7bh  é=\"x\" b\"c\x7d\x7d".toList
    let found : List Word := [⟨none, "h", false, 2⟩, ⟨some "é", "x", true, 8⟩]
    Span.Bounds ⟨2, 15⟩ source ∧
      ∃ place rest, Word.Worded 2 (Span.slice ⟨2, 15⟩ source) found place rest ∧ Word.Stuck place rest := by
  intro source found
  have hstands : StandsAt source 2 "h  é=\"x\" b\"c".toList := ⟨['{', '{'], ['}', '}'], by decide, by decide⟩
  have hbounds : Span.Bounds ⟨2, 15⟩ source := hstands.bounds
  have hyields : (words 2 (Span.slice ⟨2, 15⟩ source)).yields =
      found.map .ok ++ [.error ⟨.malformedLiteral, 13⟩] := by decide
  exact ⟨hbounds, ((words_yields_iff hbounds).2.2 found).1 ⟨_, hyields⟩⟩

end Stencil
