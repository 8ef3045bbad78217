import Stencil.Proofs.Checked.Lexing
import Stencil.Proofs.Markup.WordRow

/-!
# Reading words by places

The words of a tag body can be read by places as well. A cursor stands at a place of the body and
goes from word to word. It takes a slice for each look at what follows, for a key, and for a value
without its quotes. It stands between two characters at all times: what it goes over is the text of
a blank, a key, an equals sign or a value, and each of these is made of whole characters.
-/

namespace Stencil

/-! ### Ends of words -/

/-- The place of the first character of a kind, counted from the start of a text. -/
def findChar (kind : Char → Bool) (text : List Char) : Option Nat :=
  if text.any kind then some (byteSize (text.takeWhile (!kind ·))) else none

def wordEnd (source : List Char) (start stop : Nat) (ends : Char → Bool) : Checked Nat := do
  let rest ← slice source start stop
  match findChar ends rest with
  | some index => return start + index
  | none => return stop

section

variable {source text : List Char} {start stop : Nat}

theorem wordEnd_eq (hrest : slice source start stop = .ok text) (ends : Char → Bool) :
    wordEnd source start stop ends = .ok (start + byteSize (text.takeWhile (!ends ·))) := by
  rw [wordEnd, hrest]
  simp only [bind, Except.bind, findChar]
  by_cases hany : text.any ends
  · rw [if_pos hany]
    rfl
  · have hall : text.takeWhile (!ends ·) = text := by
      rw [List.takeWhile_eq_self_iff]
      intro char hchar
      rw [Bool.not_eq_true']
      by_contra hends
      exact hany (List.any_eq_true.2 ⟨char, hchar, by simpa using hends⟩)
    rw [if_neg hany, hall, (slice_eq_ok_iff.1 hrest).2]
    rfl

theorem slice_takeWhile (hrest : slice source start stop = .ok text) (kind : Char → Bool) :
    slice source start (start + byteSize (text.takeWhile kind)) = .ok (text.takeWhile kind) := by
  rw [← List.takeWhile_append_dropWhile (p := kind) (l := text)] at hrest
  exact slice_left hrest

theorem slice_dropWhile (hrest : slice source start stop = .ok text) (kind : Char → Bool) :
    slice source (start + byteSize (text.takeWhile kind)) stop = .ok (text.dropWhile kind) := by
  rw [← List.takeWhile_append_dropWhile (p := kind) (l := text)] at hrest
  exact slice_right hrest

end

/-! ### Values -/

def quotedWord (source : List Char) (stop : Nat) (key : Option String) (start : Nat) :
    Checked (Word × Nat) := do
  let rest ← slice source start stop
  match ← quotedBytes rest with
  | none => refuse source .malformedLiteral start
  | some length =>
    let next := start + length
    let rest ← slice source next stop
    if rest.head?.all isBlank then
      let value ← slice source (start + 1) (start + length - 1)
      return (⟨key, String.ofList value, true, start⟩, next)
    else refuse source .malformedLiteral next

def bareWord (source : List Char) (stop : Nat) (key : Option String) (start : Nat) :
    Checked (Word × Nat) := do
  let next ← wordEnd source start stop isBlank
  let value ← slice source start next
  match findChar (· == '"') value with
  | some index => refuse source .malformedLiteral (start + index)
  | none =>
    if value = [] then refuse source (.unexpectedToken (key.getD "" ++ "=")) start
    else if value.head? = some '=' then refuse source (.unexpectedToken (String.ofList value)) start
    else return (⟨key, String.ofList value, false, start⟩, next)

/-- What is read for a value is the word, and the place behind the value. -/
def Word.ValueRead (key : Option String) (start : Nat) (found : Word × Nat) (word : Word) : Prop :=
  found = (word, start + byteSize word.valueText) ∧ word.key = key

section

variable {source text : List Char} {start stop : Nat}

theorem slice_quoted {content after : List Char}
    (h : slice source start stop = .ok ('"' :: (content ++ '"' :: after))) :
    slice source (start + 1) (start + (byteSize content + 2) - 1) = .ok content ∧
      slice source (start + (byteSize content + 2)) stop = .ok after := by
  have hone : byteSize ['"'] = 1 := by decide
  constructor
  · rw [← List.singleton_append] at h
    have hcontent := slice_left (slice_right h)
    rw [hone, Nat.add_assoc] at hcontent
    have hstop : start + (byteSize content + 2) - 1 = start + (1 + byteSize content) := by omega
    rw [hstop, hcontent]
  · have hquotes : '"' :: (content ++ '"' :: after) = (['"'] ++ (content ++ ['"'])) ++ after := by simp
    rw [hquotes] at h
    have hafter := slice_right h
    have hsize : byteSize (['"'] ++ (content ++ ['"'])) = byteSize content + 2 := by
      simp only [byteSize_append, hone]
      omega
    rwa [hsize] at hafter

theorem quotedWord_agrees (hrest : slice source start stop = .ok ('"' :: text)) (key : Option String) :
    Agrees source (Word.ValueRead key start) (quotedWord source stop key start)
      (Word.readQuoted key start text) := by
  rw [quotedWord, hrest]
  simp only [bind, Except.bind, quotedBytes_eq, Word.readQuoted]
  cases hcontent : quotedContent false text with
  | none => exact .refuse (by simp) (slice_bounds hrest).start
  | some content =>
    obtain ⟨-, after, rfl⟩ := isQuotable_of_quotedContent hcontent
    obtain ⟨hvalue, hafter⟩ := slice_quoted hrest
    have hdrop : (content ++ '"' :: after).drop (content.length + 1) = after := by
      rw [← List.drop_drop, List.drop_left, List.drop_one, List.tail_cons]
    have hread : Word.ValueRead key start
        (⟨key, String.ofList content, true, start⟩, start + (byteSize content + 2))
        ⟨key, String.ofList content, true, start⟩ := by
      refine ⟨?_, rfl⟩
      simp only [Word.valueText, if_true, String.toList_ofList, byteSize, byteSize_append, utf8Size_quote,
        Prod.mk.injEq, true_and]
      omega
    simp only [Option.map_some, hafter, hdrop, hvalue]
    cases after with
    | nil => exact .done hread
    | cons char after =>
      have hhead : (char :: after).head?.all isBlank = isBlank char := rfl
      by_cases hblank : isBlank char = true
      · rw [if_pos (hhead.trans hblank)]
        simp only [List.head?_cons, if_pos hblank]
        exact .done hread
      · rw [if_neg fun hall => hblank (hhead.symm.trans hall)]
        simp only [List.head?_cons, if_neg hblank]
        exact .refuse (by simp) (slice_bounds hafter).start

theorem bareWord_agrees (hrest : slice source start stop = .ok text) (key : Option String) :
    Agrees source (Word.ValueRead key start) (bareWord source stop key start)
      (Word.readBare key start text) := by
  have hvalue := slice_takeWhile hrest (!isBlank ·)
  rw [bareWord, wordEnd_eq hrest]
  simp only [bind, Except.bind, hvalue, Word.readBare]
  generalize text.takeWhile (!isBlank ·) = value at hvalue
  have hstart := (slice_bounds hvalue).start
  rw [findChar]
  by_cases hquote : '"' ∈ value
  · have hany : value.any (· == '"') = true := List.any_eq_true.2 ⟨'"', hquote, by decide⟩
    rw [if_pos hany, if_pos hquote]
    exact .refuse (by simp) (slice_bounds (slice_takeWhile hvalue _)).stop
  · have hany : ¬value.any (· == '"') = true := by
      rw [List.any_eq_true]
      rintro ⟨char, hchar, hsame⟩
      exact hquote (beq_iff_eq.1 hsame ▸ hchar)
    rw [if_neg hany, if_neg hquote]
    simp only
    split
    · exact .refuse (by simp) hstart
    · split
      · exact .refuse (by simp) hstart
      · refine .done ⟨?_, rfl⟩
        simp [Word.valueText]

end

/-! ### Words -/

def valueAt (source : List Char) (stop : Nat) (key : Option String) (start : Nat) :
    Checked (Word × Nat) := do
  let rest ← slice source start stop
  if rest.head? = some '"' then quotedWord source stop key start else bareWord source stop key start

/-- Reads the word that starts at a place with neither a blank nor a quote, and gives the place
behind it. What comes first is a key if an equals sign follows. -/
def plainWord (source : List Char) (stop start : Nat) : Checked (Word × Nat) := do
  let nameEnd ← wordEnd source start stop (!Word.isPlain ·)
  let after ← slice source nameEnd stop
  if after.head? = some '=' then
    if start < nameEnd then
      let key ← slice source start nameEnd
      valueAt source stop (some (String.ofList key)) (nameEnd + 1)
    else
      let next ← wordEnd source start stop isBlank
      let word ← slice source start next
      refuse source (.unexpectedToken (String.ofList word)) start
  else if after.head? = some '"' then refuse source .malformedLiteral nameEnd
  else bareWord source stop none start

def wordAt (source : List Char) (stop start : Nat) : Checked (Word × Nat) := do
  let rest ← slice source start stop
  if rest.head? = some '"' then quotedWord source stop none start else plainWord source stop start

def Word.Found (start : Nat) (found : Word × Nat) (word : Word) : Prop :=
  found = (word, start + byteSize word.raw)

section

variable {source text : List Char} {start stop : Nat}

theorem Word.ValueRead.found {found : Word × Nat} {word : Word} (h : Word.ValueRead none start found word) :
    Word.Found start found word := by
  obtain ⟨rfl, hkey⟩ := h
  rw [Word.Found, Word.raw_eq, Word.keyText, hkey, List.nil_append]

theorem Word.ValueRead.found_keyed {name : List Char} {found : Word × Nat} {word : Word}
    (h : Word.ValueRead (some (String.ofList name)) (start + byteSize name + 1) found word) :
    Word.Found start found word := by
  obtain ⟨rfl, hkey⟩ := h
  have hone : '='.utf8Size = 1 := by decide
  have hsize : byteSize word.raw = byteSize name + 1 + byteSize word.valueText := by
    simp only [Word.raw_eq, Word.keyText, hkey, String.toList_ofList, byteSize_append, byteSize, hone]
  rw [Word.Found, hsize, Nat.add_assoc start, Nat.add_assoc start]

theorem valueAt_agrees (hrest : slice source start stop = .ok text) (key : Option String) :
    Agrees source (Word.ValueRead key start) (valueAt source stop key start)
      (Word.readValue key start text) := by
  rw [valueAt, hrest]
  simp only [bind, Except.bind]
  by_cases hquote : text.head? = some '"'
  · obtain ⟨more, rfl⟩ := List.head?_eq_some_iff.1 hquote
    rw [if_pos hquote]
    exact quotedWord_agrees hrest key
  · rw [if_neg hquote, Word.readValue.eq_def]
    split
    · exact absurd rfl hquote
    · exact bareWord_agrees hrest key

theorem Word.read_quote (place : Nat) (rest : List Char) :
    Word.read place ('"' :: rest) = Word.readQuoted none place rest := by
  have hplain : Word.isPlain '"' = false := by decide
  simp only [Word.read, List.takeWhile_cons, List.dropWhile_cons, hplain]
  rfl

theorem plainWord_agrees (hrest : slice source start stop = .ok text) (hquote : text.head? ≠ some '"') :
    Agrees source (Word.Found start) (plainWord source stop start) (Word.read start text) := by
  have hbare := (bareWord_agrees hrest none).mono fun _ _ => Word.ValueRead.found
  have hend := wordEnd_eq hrest (!Word.isPlain ·)
  have hname := slice_takeWhile hrest Word.isPlain
  have hafter := slice_dropWhile hrest Word.isPlain
  have hsplit : text.takeWhile Word.isPlain ++ text.dropWhile Word.isPlain = text :=
    List.takeWhile_append_dropWhile
  simp only [Bool.not_not] at hend
  rw [plainWord, hend]
  simp only [bind, Except.bind, hafter, Word.read]
  generalize text.takeWhile Word.isPlain = name at hname hafter hsplit
  generalize text.dropWhile Word.isPlain = dropped at hafter hsplit
  rcases dropped with _ | ⟨char, rest⟩
  · exact hbare
  · by_cases hequals : char = '='
    · subst hequals
      rcases eq_or_ne name [] with rfl | hne
      · have hword := slice_takeWhile hrest (!isBlank ·)
        simp only [List.head?_cons, if_true, byteSize, Nat.add_zero, Nat.lt_irrefl, if_false,
          wordEnd_eq hrest, hword]
        exact .refuse (by simp) (slice_bounds hrest).start
      · have hsize : 0 < byteSize name := byteSize_pos hne
        have hvalue : slice source (start + byteSize name + 1) stop = .ok rest := by
          rw [← List.singleton_append] at hafter
          exact slice_right hafter
        simp only [List.head?_cons, if_true, if_pos (Nat.lt_add_of_pos_right hsize), hname, if_neg hne]
        exact (valueAt_agrees hvalue _).mono fun _ _ => Word.ValueRead.found_keyed
    · by_cases hquoted : char = '"'
      · subst hquoted
        have hne : name ≠ [] := by
          rintro rfl
          exact hquote (by rw [← hsplit]; rfl)
        simp only [List.head?_cons, Option.some.injEq, if_neg hequals, if_true, if_neg hne]
        exact .refuse (by simp) (slice_bounds hafter).start
      · simp only [List.head?_cons, Option.some.injEq, if_neg hequals, if_neg hquoted]
        split
        · next heq => exact absurd (List.cons.inj heq).1 hequals
        · next heq => exact absurd (List.cons.inj heq).1 hquoted
        · exact hbare

theorem wordAt_agrees (hrest : slice source start stop = .ok text) :
    Agrees source (Word.Found start) (wordAt source stop start) (Word.read start text) := by
  rw [wordAt, hrest]
  simp only [bind, Except.bind]
  by_cases hquote : text.head? = some '"'
  · obtain ⟨more, rfl⟩ := List.head?_eq_some_iff.1 hquote
    rw [if_pos hquote, Word.read_quote]
    exact (quotedWord_agrees hrest none).mono fun _ _ => Word.ValueRead.found
  · rw [if_neg hquote]
    exact plainWord_agrees hrest hquote

end

/-! ### Rows of words -/

/-- Reads the next word from a place on, and gives the place behind it, or nothing at the end. -/
def nextWord (source : List Char) (stop place : Nat) : Checked (Option (Word × Nat)) := do
  let rest ← slice source place stop
  let start := place + (byteSize rest - byteSize (rest.dropWhile isBlank))
  if start < stop then
    let found ← wordAt source stop start
    return some found
  else return none

/-- All words from a place on, up to the first error. A round that does not go forward would never
end, which counts as a panic as well. -/
def wordsFrom (source : List Char) (stop place : Nat) : Checked (Scanned ParseError Word) :=
  match nextWord source stop place with
  | .ok none => return ⟨[], none⟩
  | .ok (some (word, next)) =>
    if place < next ∧ next ≤ stop then do
      let others ← wordsFrom source stop next
      return others.add (some word)
    else .error .panic
  | .error (.refused error) => return ⟨[], some error⟩
  | .error .panic => .error .panic
termination_by stop - place

/-- The cursor goes forward to a place where the other words start. -/
inductive Advances (source : List Char) (stop place : Nat) :
    Option (Word × Nat) → Option (Word × Scanned Fault Word) → Prop where
  | none : Advances source stop place none none
  | word {word : Word} {next : Nat} {rest : List Char} {others : Scanned Fault Word} :
    slice source next stop = .ok rest → others = words next rest → place < next →
    IsBoundary source word.place → Advances source stop place (some (word, next)) (some (word, others))

theorem words_dropWhile (place : Nat) (text : List Char) :
    words place text = words (place + byteSize (text.takeWhile isBlank)) (text.dropWhile isBlank) := by
  induction text generalizing place with
  | nil => rfl
  | cons char rest ih =>
    by_cases hblank : isBlank char = true
    · rw [List.takeWhile_cons_of_pos hblank, List.dropWhile_cons_of_pos hblank, byteSize, ← Nat.add_assoc,
        words, Word.scan_blank hblank]
      exact ih _
    · rw [List.takeWhile_cons_of_neg hblank, List.dropWhile_cons_of_neg hblank]
      rfl

theorem words_next_error {char : Char} {rest : List Char} {place : Nat} {fault : Fault}
    (hblank : ¬isBlank char = true) (h : Word.read place (char :: rest) = .error fault) :
    (words place (char :: rest)).next = .error fault := by
  rw [words, scan, Word.step, if_neg hblank, h]
  rfl

theorem words_next_ok {word : Word} {rest : List Char} {place : Nat} (hword : word.WellFormed)
    (h : Word.read place (word.raw ++ rest) = .ok word) :
    (words place (word.raw ++ rest)).next = .ok (some (word, words (place + byteSize word.raw) rest)) := by
  rw [words, Word.scan_word hword h]
  rfl

section

variable {source text : List Char} {place stop : Nat}

theorem nextWord_agrees (hrest : slice source place stop = .ok text) :
    Agrees source (Advances source stop place) (nextWord source stop place) (words place text).next := by
  have hsplit : text.takeWhile isBlank ++ text.dropWhile isBlank = text := List.takeWhile_append_dropWhile
  have hskip : byteSize text - byteSize (text.dropWhile isBlank) = byteSize (text.takeWhile isBlank) := by
    have hsize := congrArg byteSize hsplit
    rw [byteSize_append] at hsize
    omega
  have hafter := slice_dropWhile hrest isBlank
  have hhead := List.head?_dropWhile_not isBlank text
  rw [nextWord, hrest, words_dropWhile]
  simp only [bind, Except.bind, hskip]
  generalize text.dropWhile isBlank = dropped at hafter hhead
  obtain ⟨hstands, hstop⟩ := slice_eq_ok_iff.1 hafter
  cases dropped with
  | nil =>
    rw [byteSize] at hstop
    rw [if_neg (by omega)]
    exact .done .none
  | cons char rest =>
    have hpos := char.utf8Size_pos
    have hblank : ¬isBlank char = true := by simpa using hhead
    have hword := wordAt_agrees hafter
    rw [byteSize] at hstop
    rw [if_pos (by omega)]
    cases hread : Word.read (place + byteSize (text.takeWhile isBlank)) (char :: rest) with
    | error fault =>
      rw [words_next_error hblank hread]
      rw [hread] at hword
      generalize wordAt source stop _ = checked at hword
      cases hword with
      | refused hplace => exact .refused hplace
    | ok word =>
      obtain ⟨more, hmore, hwell, -, hplace⟩ := Word.exists_of_read hread
      obtain ⟨first, raw, hraw, -⟩ := hwell.raw_head
      have hsize : 0 < byteSize word.raw := by
        have hfirst := first.utf8Size_pos
        rw [hraw, byteSize]
        omega
      rw [hread] at hword
      rw [hmore] at hread hafter ⊢
      rw [words_next_ok hwell hread]
      generalize wordAt source stop _ = checked at hword
      cases hword with
      | done hfound =>
        obtain rfl := hfound
        refine .done (.word (slice_right hafter) rfl (by omega) ?_)
        rw [Word.raw_eq, List.append_assoc] at hafter
        rw [hplace]
        exact (slice_bounds (slice_left hafter)).stop

/-- What a move of the cursor can be: to the end, to a fault, or over a word to where the other
words start. -/
theorem nextWord_cases (hrest : slice source place stop = .ok text) :
    (nextWord source stop place = .ok none ∧ words place text = ⟨[], none⟩) ∨
    (∃ fault : Fault, nextWord source stop place = .error (fault.stop source) ∧
      words place text = ⟨[], some fault⟩ ∧ IsBoundary source fault.place) ∨
    ∃ word next rest, nextWord source stop place = .ok (some (word, next)) ∧
      words place text = (words next rest).add (some word) ∧ slice source next stop = .ok rest ∧
      place < next ∧ next ≤ stop ∧ IsBoundary source word.place := by
  have hnext := nextWord_agrees hrest
  generalize nextWord source stop place = checked at hnext ⊢
  generalize words place text = scanned at hnext ⊢
  obtain ⟨items, failure⟩ := scanned
  cases items with
  | nil =>
    cases failure with
    | none =>
      cases hnext with
      | done hadvances =>
        cases hadvances with
        | none => exact .inl ⟨rfl, rfl⟩
    | some fault =>
      cases hnext with
      | refused hplace => exact .inr (.inl ⟨fault, rfl, rfl, hplace⟩)
  | cons word items =>
    cases hnext with
    | done hadvances =>
      cases hadvances with
      | word hslice hothers hgo hplace =>
        refine .inr (.inr ⟨_, _, _, rfl, ?_, hslice, hgo, (slice_bounds hslice).ordered, hplace⟩)
        rw [← hothers]
        rfl

/-- All words of a body are read by places as they are from the text. Those in front of an error are
read as well. -/
theorem wordsFrom_eq (hrest : slice source place stop = .ok text) :
    wordsFrom source stop place =
      .ok ⟨(words place text).items, (words place text).failure.map (·.inSource source)⟩ ∧
    (∀ word ∈ (words place text).items, IsBoundary source word.place) ∧
    ∀ fault ∈ (words place text).failure, IsBoundary source fault.place := by
  induction hsize : stop - place using Nat.strong_induction_on generalizing place text with
  | _ size ih =>
    rw [wordsFrom]
    rcases nextWord_cases hrest with ⟨hnext, hwords⟩ | ⟨fault, hnext, hwords, hplace⟩ |
      ⟨word, next, rest, hnext, hwords, hslice, hgo, hstop, hplace⟩
    · rw [hnext, hwords]
      exact ⟨rfl, by simp, by simp⟩
    · rw [hnext, hwords]
      exact ⟨rfl, by simp, by simpa using hplace⟩
    · obtain ⟨hread, hplaces, hfailure⟩ := ih (stop - next) (by omega) hslice rfl
      rw [hnext, hwords]
      simp only [bind, Except.bind]
      rw [if_pos ⟨hgo, hstop⟩, hread]
      refine ⟨rfl, ?_, hfailure⟩
      intro other hother
      rcases List.mem_cons.1 hother with rfl | hother
      · exact hplace
      · exact hplaces other hother

end

end Stencil
