import Stencil.Markup.Word
import Stencil.Proofs.Markup.Standing
import Mathlib.Data.List.TakeWhile

/-!
# Rows of words

A body is read to its end exactly if it is a row of well-formed words with blanks between them.
Every character of a bare word and of a key is plain, a value behind an equals sign may hold further
ones unless it starts with one, and a quoted value is one that its closing quote ends.
-/

namespace Stencil

namespace Word

/-! ### Well-formed words -/

def keyText (word : Word) : List Char :=
  match word.key with
  | some key => key.toList ++ ['=']
  | none => []

def valueText (word : Word) : List Char :=
  if word.quoted then '"' :: word.value.toList ++ ['"'] else word.value.toList

theorem raw_eq (word : Word) : word.raw = word.keyText ++ word.valueText :=
  rfl

/-- A text that can stand as a key, or as a word without one. -/
def IsName (text : List Char) : Prop :=
  text ≠ [] ∧ ∀ char ∈ text, isPlain char = true

/-- A text that can stand as an unquoted value. -/
def IsBare (text : List Char) : Prop :=
  text ≠ [] ∧ (∀ char ∈ text, isBlank char = false ∧ char ≠ '"') ∧ text.head? ≠ some '='

structure WellFormed (word : Word) : Prop where
  key : ∀ key ∈ word.key, IsName key.toList
  quoted : word.quoted = true → IsQuotable word.value.toList
  bare : word.quoted = false → IsBare word.value.toList
  name : word.quoted = false → word.key = none → IsName word.value.toList

def EndsBefore (rest : List Char) : Prop :=
  ∀ char ∈ rest.head?, isBlank char = true

theorem takeWhile_append_stop {p : Char → Bool} {left right : List Char} (hleft : ∀ char ∈ left, p char = true)
    (hright : ∀ char ∈ right.head?, p char = false) :
    (left ++ right).takeWhile p = left ∧ (left ++ right).dropWhile p = right := by
  rw [List.takeWhile_append_of_pos hleft, List.dropWhile_append_of_pos hleft]
  cases right with
  | nil => simp
  | cons char right => simp [hright char rfl]

theorem readQuoted_eq_ok_iff {key : Option String} {place : Nat} {text : List Char} {word : Word} :
    readQuoted key place text = .ok word ↔
      ∃ content rest, text = content ++ '"' :: rest ∧ IsQuotable content ∧ EndsBefore rest ∧
        word = ⟨key, String.ofList content, true, place⟩ := by
  constructor
  · intro h
    rw [readQuoted] at h
    split at h
    · simp at h
    · next content hcontent =>
      obtain ⟨hquotable, rest, rfl⟩ := isQuotable_of_quotedContent hcontent
      rw [← List.drop_drop, List.drop_left, List.drop_one, List.tail_cons] at h
      refine ⟨content, rest, rfl, hquotable, ?_⟩
      cases rest with
      | nil => exact ⟨by simp [EndsBefore], by simpa using h.symm⟩
      | cons char rest =>
        simp only [List.head?_cons] at h
        split at h
        · next hblank => exact ⟨by simpa [EndsBefore] using hblank, by simpa using h.symm⟩
        · simp at h
  · intro hgiven
    obtain ⟨content, rest, rfl, hcontent, hends, rfl⟩ := hgiven
    rw [readQuoted, hcontent.quotedContent]
    simp only
    rw [← List.drop_drop, List.drop_left, List.drop_one, List.tail_cons]
    cases rest with
    | nil => rfl
    | cons char rest =>
      have hblank : isBlank char = true := hends char rfl
      simp [hblank]

theorem readBare_eq_ok_iff {key : Option String} {place : Nat} {text : List Char} {word : Word} :
    readBare key place text = .ok word ↔
      ∃ value rest, text = value ++ rest ∧ IsBare value ∧ EndsBefore rest ∧
        word = ⟨key, String.ofList value, false, place⟩ := by
  constructor
  · intro h
    simp only [readBare] at h
    have hends : EndsBefore (text.dropWhile (!isBlank ·)) := by
      intro char hchar
      have hstop := List.head?_dropWhile_not (!isBlank ·) text
      rw [Option.mem_def.1 hchar] at hstop
      simpa using hstop
    refine ⟨text.takeWhile (!isBlank ·), text.dropWhile (!isBlank ·),
      List.takeWhile_append_dropWhile.symm, ?_⟩
    split at h
    · simp at h
    · next hquoteless =>
      split at h
      · simp at h
      · next hne =>
        split at h
        · simp at h
        · next hhead =>
          refine ⟨⟨hne, fun char hchar => ⟨?_, ?_⟩, hhead⟩, hends, by simpa using h.symm⟩
          · simpa using List.mem_takeWhile_imp hchar
          · intro heq
            obtain rfl := heq
            exact hquoteless hchar
  · intro hgiven
    obtain ⟨value, rest, rfl, ⟨hne, hchars, hhead⟩, hends, rfl⟩ := hgiven
    have htake : (value ++ rest).takeWhile (!isBlank ·) = value := by
      refine (takeWhile_append_stop (fun char hchar => ?_) fun char hchar => ?_).1
      · simp [(hchars char hchar).1]
      · simp [hends char hchar]
    simp only [readBare, htake]
    rw [if_neg fun hquote => (hchars '"' hquote).2 rfl, if_neg hne, if_neg hhead]

/-! ### Reading a word -/

theorem readValue_eq_ok_iff {key : Option String} {place : Nat} {text : List Char} {word : Word} :
    readValue key place text = .ok word ↔
      ∃ rest, text = word.valueText ++ rest ∧ word.key = key ∧ word.place = place ∧ EndsBefore rest ∧
        (word.quoted = true → IsQuotable word.value.toList) ∧
        (word.quoted = false → IsBare word.value.toList) := by
  constructor
  · intro h
    rw [readValue.eq_def] at h
    split at h
    · obtain ⟨content, rest, rfl, hcontent, hends, rfl⟩ := readQuoted_eq_ok_iff.1 h
      exact ⟨rest, by simp [valueText], rfl, rfl, hends, by simpa using hcontent, by simp⟩
    · obtain ⟨value, rest, rfl, hvalue, hends, rfl⟩ := readBare_eq_ok_iff.1 h
      exact ⟨rest, by simp [valueText], rfl, rfl, hends, by simp, by simpa using hvalue⟩
  · intro hgiven
    obtain ⟨rest, rfl, rfl, rfl, hends, hquoted, hbare⟩ := hgiven
    obtain ⟨key, value, quoted, place⟩ := word
    cases quoted with
    | true =>
      refine readQuoted_eq_ok_iff.2 ⟨value.toList, rest, ?_, hquoted rfl, hends, by simp⟩
      simp
    | false =>
      have hvalue := hbare rfl
      obtain ⟨char, more, hsplit⟩ := List.exists_cons_of_ne_nil hvalue.1
      have hquote : char ≠ '"' := (hvalue.2.1 char (by simp [hsplit])).2
      rw [readValue.eq_def]
      split
      · next heq =>
        simp only [valueText, Bool.false_eq_true, if_false] at heq
        rw [hsplit] at heq
        exact absurd (List.cons.inj heq).1 hquote
      · exact readBare_eq_ok_iff.2 ⟨value.toList, rest, rfl, hvalue, hends, by simp⟩

theorem read_keyed {plain : List Char} (h : IsName plain) (place : Nat) (rest : List Char) :
    read place (plain ++ '=' :: rest) =
      readValue (some (String.ofList plain)) (place + byteSize plain + 1) rest := by
  have hequals : ∀ char ∈ ('=' :: rest).head?, isPlain char = false := by simp [isPlain]
  obtain ⟨htake, hdrop⟩ := takeWhile_append_stop h.2 hequals
  rw [read, hdrop, htake]
  simp only
  rw [if_neg h.1]

theorem read_bare {plain rest : List Char} (h : IsName plain) (hends : EndsBefore rest) (place : Nat) :
    read place (plain ++ rest) = readBare none place (plain ++ rest) := by
  have hstop : ∀ char ∈ rest.head?, isPlain char = false := by
    intro char hchar
    simp [isPlain, hends char hchar]
  obtain ⟨-, hdrop⟩ := takeWhile_append_stop h.2 hstop
  rw [read, hdrop]
  cases rest with
  | nil => rfl
  | cons char rest =>
    have hblank := hends char rfl
    split
    · next heq =>
      obtain rfl := (List.cons.inj heq).1
      exact absurd hblank (by decide)
    · next heq =>
      obtain rfl := (List.cons.inj heq).1
      exact absurd hblank (by decide)
    · rfl

theorem IsName.isBare {text : List Char} (h : IsName text) : IsBare text := by
  have hplain : ∀ char ∈ text, isBlank char = false ∧ char ≠ '=' ∧ char ≠ '"' := by
    intro char hchar
    simpa [isPlain, and_assoc] using h.2 char hchar
  refine ⟨h.1, fun char hchar => ⟨(hplain char hchar).1, (hplain char hchar).2.2⟩, fun hhead => ?_⟩
  obtain ⟨rest, rfl⟩ := List.head?_eq_some_iff.1 hhead
  exact (hplain '=' (by simp)).2.1 rfl

theorem eq_of_isBare {plain value dropped rest : List Char} (heq : plain ++ dropped = value ++ rest)
    (hplain : ∀ char ∈ plain, isPlain char = true) (hdropped : EndsBefore dropped)
    (hvalue : IsBare value) (hends : EndsBefore rest) : plain = value := by
  have hleft : (plain ++ dropped).takeWhile (!isBlank ·) = plain := by
    refine (takeWhile_append_stop (fun char hchar => ?_) fun char hchar => ?_).1
    · have hchar := hplain char hchar
      simp only [isPlain, Bool.and_eq_true] at hchar
      exact hchar.1.1
    · simp [hdropped char hchar]
  have hright : (value ++ rest).takeWhile (!isBlank ·) = value := by
    refine (takeWhile_append_stop (fun char hchar => ?_) fun char hchar => ?_).1
    · simp [(hvalue.2.1 char hchar).1]
    · simp [hends char hchar]
  rw [← hleft, heq, hright]

theorem exists_of_read {place : Nat} {text : List Char} {word : Word} (h : read place text = .ok word) :
    ∃ rest, text = word.raw ++ rest ∧ word.WellFormed ∧ EndsBefore rest ∧
      word.place = place + byteSize word.keyText := by
  have hsplit : text.takeWhile isPlain ++ text.dropWhile isPlain = text :=
    List.takeWhile_append_dropWhile
  have hplain : ∀ char ∈ text.takeWhile isPlain, isPlain char = true :=
    fun char hchar => List.mem_takeWhile_imp hchar
  have hstop := List.head?_dropWhile_not isPlain text
  rw [read] at h
  generalize text.takeWhile isPlain = plain at hsplit hplain h
  generalize text.dropWhile isPlain = dropped at hsplit hstop h
  subst hsplit
  split at h
  · next rest =>
    split at h
    · simp at h
    · next hne =>
      obtain ⟨rest, rfl, hkey, hplace, hends, hquoted, hbare⟩ := readValue_eq_ok_iff.1 h
      have hkeyText : word.keyText = plain ++ ['='] := by simp [keyText, hkey]
      refine ⟨rest, ?_, ⟨?_, hquoted, hbare, by simp [hkey]⟩, hends, ?_⟩
      · simp [raw_eq, hkeyText]
      · rw [hkey]
        rintro key ⟨⟩
        exact ⟨by simpa using hne, by simpa using hplain⟩
      · have hsize : '='.utf8Size = 1 := by decide
        simp [hplace, hkeyText, byteSize, hsize, Nat.add_assoc]
  · next rest =>
    split at h
    · next hempty =>
      obtain ⟨content, rest, rfl, hcontent, hends, rfl⟩ := readQuoted_eq_ok_iff.1 h
      refine ⟨rest, ?_, ⟨by simp, by simpa using hcontent, by simp, by simp⟩, hends, rfl⟩
      simp [raw_eq, keyText, valueText, hempty]
    · simp at h
  · next hequals hquote =>
    obtain ⟨value, rest, heq, hvalue, hends, rfl⟩ := readBare_eq_ok_iff.1 h
    have hdropped : EndsBefore dropped := by
      intro char hchar
      obtain ⟨more, rfl⟩ := List.head?_eq_some_iff.1 hchar
      have hneither : char ≠ '=' ∧ char ≠ '"' :=
        ⟨fun h => hequals more (by rw [h]), fun h => hquote more (by rw [h])⟩
      by_contra hblank
      simp [isPlain, hblank, hneither] at hstop
    obtain rfl := eq_of_isBare heq hplain hdropped hvalue hends
    refine ⟨rest, ?_, ⟨by simp, by simp, by simpa using hvalue, fun _ _ => ?_⟩, hends, rfl⟩
    · rw [heq]
      simp [raw_eq, keyText, valueText]
    · exact ⟨by simpa using hvalue.1, by simpa using hplain⟩

theorem read_of_wellFormed {word : Word} {rest : List Char} {place : Nat} (hword : word.WellFormed)
    (hends : EndsBefore rest) (hplace : word.place = place + byteSize word.keyText) :
    read place (word.raw ++ rest) = .ok word := by
  rw [raw_eq, List.append_assoc]
  cases hkey : word.key with
  | some key =>
    have hkeyText : word.keyText = key.toList ++ ['='] := by simp [keyText, hkey]
    have hsize : '='.utf8Size = 1 := by decide
    rw [hkeyText, List.append_assoc, List.singleton_append, read_keyed (hword.key key (by simp [hkey]))]
    refine readValue_eq_ok_iff.2 ⟨rest, rfl, by simp [hkey], ?_, hends, hword.quoted, hword.bare⟩
    simp [hplace, hkeyText, byteSize, hsize, Nat.add_assoc]
  | none =>
    have hkeyText : word.keyText = [] := by simp [keyText, hkey]
    rw [hkeyText, List.nil_append]
    have hvalue : readValue none place (word.valueText ++ rest) = .ok word :=
      readValue_eq_ok_iff.2 ⟨rest, rfl, hkey, by simpa [hkeyText, byteSize] using hplace, hends,
        hword.quoted, hword.bare⟩
    cases hquoted : word.quoted with
    | true =>
      have hvalueText : word.valueText ++ rest = '"' :: (word.value.toList ++ '"' :: rest) := by
        simp [valueText, hquoted]
      rw [hvalueText] at hvalue ⊢
      exact hvalue
    | false =>
      have hname := hword.name hquoted hkey
      have hvalueText : word.valueText = word.value.toList := by simp [valueText, hquoted]
      rw [hvalueText, read_bare hname hends]
      refine readBare_eq_ok_iff.2 ⟨_, rest, rfl, hname.isBare, hends, ?_⟩
      obtain ⟨key, value, quoted, wordPlace⟩ := word
      simp_all [byteSize]

/-! ### Rows -/

/-- A body that starts at a place and consists of words with blanks between them. -/
inductive Row : Nat → List Char → List Word → Prop where
  | nil {place : Nat} : Row place [] []
  | blank {place : Nat} {char : Char} {body : List Char} {words : List Word} :
    isBlank char = true → Row (place + char.utf8Size) body words → Row place (char :: body) words
  | word {place : Nat} {word : Word} {rest : List Char} {words : List Word} :
    word.WellFormed → word.place = place + byteSize word.keyText → EndsBefore rest →
    Row (place + byteSize word.raw) rest words → Row place (word.raw ++ rest) (word :: words)

theorem WellFormed.raw_head {word : Word} (h : word.WellFormed) :
    ∃ char rest, word.raw = char :: rest ∧ isBlank char = false := by
  rw [raw_eq]
  cases hkey : word.key with
  | some key =>
    obtain ⟨hne, hplain⟩ := h.key key (by simp [hkey])
    obtain ⟨char, rest, hsplit⟩ := List.exists_cons_of_ne_nil hne
    refine ⟨char, rest ++ '=' :: word.valueText, by simp [keyText, hkey, hsplit], ?_⟩
    have hchar := hplain char (by simp [hsplit])
    simp only [isPlain, Bool.and_eq_true, Bool.not_eq_true'] at hchar
    exact hchar.1.1
  | none =>
    have hkeyText : word.keyText = [] := by simp [keyText, hkey]
    rw [hkeyText, List.nil_append, valueText]
    cases hquoted : word.quoted with
    | true => exact ⟨'"', _, rfl, by decide⟩
    | false =>
      obtain ⟨hne, hchars, -⟩ := h.bare hquoted
      obtain ⟨char, rest, hsplit⟩ := List.exists_cons_of_ne_nil hne
      exact ⟨char, rest, hsplit, (hchars char (by simp [hsplit])).1⟩

theorem scan_blank {char : Char} (h : isBlank char = true) (place : Nat) (body : List Char) :
    scan step 0 place (char :: body) = scan step 0 (place + char.utf8Size) body := by
  rw [scan, step, if_pos h]
  rfl

theorem scan_word {word : Word} {place : Nat} {rest : List Char} (hword : word.WellFormed)
    (h : read place (word.raw ++ rest) = .ok word) :
    scan step 0 place (word.raw ++ rest) =
      (scan step 0 (place + byteSize word.raw) rest).add (some word) := by
  obtain ⟨char, raw, hraw, hblank⟩ := hword.raw_head
  rw [hraw, List.cons_append] at h
  rw [hraw, List.cons_append, scan, step, if_neg (by simp [hblank]), h]
  simp only [Except.map, hraw, List.length_cons, Nat.add_sub_cancel]
  rw [scan_skip, List.take_left, List.drop_left, byteSize, Nat.add_assoc]

theorem Row.scan_eq {place : Nat} {body : List Char} {words : List Word} (h : Row place body words) :
    scan step 0 place body = ⟨words, none⟩ := by
  induction h with
  | nil => rfl
  | blank hblank _ ih => rw [scan_blank hblank, ih]
  | word hword hplace hends _ ih =>
    rw [scan_word hword (read_of_wellFormed hword hends hplace), ih]
    rfl

theorem row_of_scan {place : Nat} {body : List Char} {words : List Word}
    (h : scan step 0 place body = ⟨words, none⟩) : Row place body words := by
  induction hlength : body.length using Nat.strong_induction_on generalizing place body words with
  | _ length ih =>
    cases body with
    | nil =>
      obtain rfl : [] = words := by simpa [scan] using h
      exact .nil
    | cons char rest =>
      by_cases hblank : isBlank char = true
      · rw [scan_blank hblank] at h
        exact .blank hblank (ih rest.length (by simp [← hlength]) h rfl)
      · cases hread : read place (char :: rest) with
        | error fault =>
          rw [scan, step, if_neg hblank, hread] at h
          simp [Except.map] at h
        | ok word =>
          obtain ⟨after, hafter, hword, hends, hplace⟩ := exists_of_read hread
          rw [hafter] at h hread ⊢
          rw [scan_word hword hread] at h
          simp only [Scanned.add, Scanned.mk.injEq] at h
          obtain ⟨rfl, hfailure⟩ := h
          refine .word hword hplace hends (ih after.length ?_ (congrArg (Scanned.mk _) hfailure) rfl)
          obtain ⟨first, raw, hraw, -⟩ := hword.raw_head
          rw [← hlength, hafter, List.length_append, hraw, List.length_cons]
          omega

/-- A body is read to its end exactly if it is a row of words, and these are what is read. -/
theorem words_eq_iff {place : Nat} {body : List Char} {found : List Word} :
    words place body = ⟨found, none⟩ ↔ Row place body found :=
  ⟨row_of_scan, Row.scan_eq⟩

/-! ### Quotes and places in a row -/

theorem WellFormed.paired {word : Word} (h : word.WellFormed) : Paired word.raw := by
  rw [raw_eq]
  refine Paired.append (paired_of_quoteless ?_) ?_
  · cases hkey : word.key with
    | none => simp [keyText, hkey]
    | some key =>
      intro hquote
      rw [keyText, hkey] at hquote
      rcases List.mem_append.1 hquote with hquote | hquote
      · exact absurd ((h.key key (by simp [hkey])).2 '"' hquote) (by decide)
      · simp at hquote
  · rw [valueText]
    split
    · next hquoted =>
      rw [List.cons_append]
      exact .quoted (h.quoted hquoted) .nil
    · next hquoted =>
      refine paired_of_quoteless fun hquote => ?_
      exact ((h.bare (by simpa using hquoted)).2.1 '"' hquote).2 rfl

theorem Row.paired {place : Nat} {body : List Char} {words : List Word} (h : Row place body words) :
    Paired body := by
  induction h with
  | nil => exact .nil
  | @blank _ char _ _ hblank _ ih =>
    refine .plain ?_ ih
    intro heq
    obtain rfl := heq
    exact absurd hblank (by decide)
  | word hword _ _ _ ih => exact hword.paired.append ih

/-! ### Places -/

def unplaced (word : Word) : Word :=
  { word with place := 0 }

theorem WellFormed.moved {word : Word} (h : word.WellFormed) (place : Nat) :
    ({ word with place := place } : Word).WellFormed :=
  ⟨h.key, h.quoted, h.bare, h.name⟩

theorem Row.moved {place : Nat} {body : List Char} {words : List Word} (h : Row place body words)
    (other : Nat) : ∃ moved, Row other body moved ∧ moved.map unplaced = words.map unplaced := by
  induction h generalizing other with
  | nil => exact ⟨[], .nil, rfl⟩
  | @blank place char body words hblank _ ih =>
    obtain ⟨moved, hrow, hsame⟩ := ih (other + char.utf8Size)
    exact ⟨moved, .blank hblank hrow, hsame⟩
  | @word place word rest words hword _ hends _ ih =>
    obtain ⟨moved, hrow, hsame⟩ := ih (other + byteSize word.raw)
    refine ⟨{ word with place := other + byteSize word.keyText } :: moved, ?_, ?_⟩
    · exact .word (hword.moved (other + byteSize word.keyText)) rfl hends hrow
    · rw [List.map_cons, List.map_cons, hsame]
      rfl

end Word

end Stencil
