import Stencil.Proofs.Checked.Parsing

/-!
# Excerpts of errors

The excerpt of an error is the text between two boundaries. It reaches beyond the place of the error
unless the template ends there, and takes at most thirty-eight bytes. It starts no later than the
place, but for one case: thirty-two bytes are shown from the start of a tag without an end on, and
if these stop inside a character, then the whole character is shown and so many bytes less in front.
The excerpt starts behind the place in that case.
-/

namespace Stencil

/-! ### Boundaries nearby -/

theorem exists_char_at {source : List Char} {place : Nat} (h : place < byteSize source) :
    ∃ before char after, source = before ++ char :: after ∧ byteSize before ≤ place ∧
      place < byteSize before + char.utf8Size := by
  induction source generalizing place with
  | nil => exact absurd h (Nat.not_lt_zero place)
  | cons first rest ih =>
    rcases Nat.lt_or_ge place first.utf8Size with hfirst | hrest
    · exact ⟨[], first, rest, rfl, Nat.zero_le _, by simpa [byteSize] using hfirst⟩
    · rw [byteSize] at h
      have hbehind : place - first.utf8Size < byteSize rest := by omega
      obtain ⟨before, char, after, rfl, hle, hlt⟩ := ih hbehind
      refine ⟨first :: before, char, after, rfl, ?_, ?_⟩
      · rw [byteSize]
        omega
      · rw [byteSize]
        omega

/-- A character takes four bytes at most, so a boundary is never far. -/
theorem exists_boundaries {source : List Char} {place : Nat} (h : place ≤ byteSize source) :
    ∃ low high, IsBoundary source low ∧ IsBoundary source high ∧ low ≤ place ∧ place ≤ high ∧
      place ≤ low + 3 ∧ high ≤ place + 3 := by
  rcases Nat.lt_or_eq_of_le h with hlt | rfl
  · obtain ⟨before, char, after, rfl, hle, hlt⟩ := exists_char_at hlt
    have hsize := char.utf8Size_le_four
    have hlow : IsBoundary (before ++ char :: after) (byteSize before) := ⟨before, char :: after, rfl, rfl⟩
    have hhigh : IsBoundary (before ++ char :: after) (byteSize before + char.utf8Size) :=
      ⟨before ++ [char], after, by simp, by simp [byteSize]⟩
    rcases Nat.lt_or_eq_of_le hle with hinside | rfl
    · exact ⟨_, _, hlow, hhigh, by omega, by omega, by omega, by omega⟩
    · exact ⟨_, _, hlow, hlow, by omega, by omega, by omega, by omega⟩
  · have hend := isBoundary_byteSize source
    exact ⟨_, _, hend, hend, by omega, by omega, by omega, by omega⟩

theorem le_floorBoundary_add {source : List Char} {place : Nat} (h : place ≤ byteSize source) :
    place ≤ floorBoundary source place + 3 := by
  obtain ⟨low, _, hlow, -, hle, -, hnear, -⟩ := exists_boundaries h
  have hmost := (floorBoundary_spec source place).2.2 low hle hlow
  omega

theorem ceilBoundary_le_add {source : List Char} {place : Nat} (h : place ≤ byteSize source) :
    ceilBoundary source place ≤ place + 3 := by
  obtain ⟨_, high, -, hhigh, -, hle, -, hnear⟩ := exists_boundaries h
  have hleast := (ceilBoundary_spec h).2.2 high hle hhigh
  omega

theorem IsBoundary.of_append {left right : List Char} {place : Nat} (h : IsBoundary (left ++ right) place)
    (hle : place ≤ byteSize left) : IsBoundary left place := by
  obtain ⟨before, after, hsplit, rfl⟩ := h
  rcases List.append_eq_append_iff.1 hsplit with ⟨excess, rfl, rfl⟩ | ⟨rest, rfl, -⟩
  · rw [byteSize_append] at hle
    obtain rfl : excess = [] := byteSize_eq_zero_iff.1 (by omega)
    exact ⟨left, [], by simp, by simp⟩
  · exact ⟨before, rest, rfl, rfl⟩

theorem StandsAt.append {left text : List Char} {place : Nat} (h : StandsAt left place text)
    (right : List Char) : StandsAt (left ++ right) place text := by
  obtain ⟨before, after, rfl, hplace⟩ := h
  exact ⟨before, after ++ right, by simp, hplace⟩

/-! ### Where excerpts stand -/

/-- The text between two places of a template. It reaches beyond another place, unless the template
ends there, and is short. -/
structure Reaches (source : List Char) (place : Nat) (near : List Char) (start stop : Nat) : Prop where
  cut : slice source start stop = .ok near
  upTo : place ≤ stop
  beyond : place < byteSize source → place < stop
  short : stop - start ≤ 38

/-- The thirty-two bytes behind a place stop inside a character. -/
def SplitsCharacter (source : List Char) (place : Nat) : Prop :=
  place + 32 < byteSize source ∧ ¬IsBoundary source (place + 32)

section

variable {source : List Char} {place : Nat}

theorem excerptAround_reaches (hplace : IsBoundary source place) :
    ∃ start stop, Reaches source place (excerptAround place source) start stop ∧ start ≤ place := by
  have hle := hplace.le
  have hlow : place - 16 ≤ min (place + 16) (byteSize source) := by omega
  have hcut := slice_boundaries hlow (Nat.min_le_right _ _)
  have hfloor := (floorBoundary_spec source (place - 16)).2.1
  have hfloorNear := le_floorBoundary_add (hlow.trans (Nat.min_le_right _ _))
  have hceil := (ceilBoundary_spec (Nat.min_le_right (place + 16) (byteSize source))).2.1
  have hceilNear := ceilBoundary_le_add (Nat.min_le_right (place + 16) (byteSize source))
  exact ⟨_, _, ⟨hcut, by omega, by omega, by omega⟩, by omega⟩

/-- The excerpt for a tag without an end starts behind the place of the tag exactly if it has a
character at its end that the bytes from the place on do not hold as a whole. -/
theorem excerptAfter_reaches (hplace : IsBoundary source place) :
    ∃ start stop, Reaches source place (excerptAfter place source) start stop ∧
      (start ≤ place ∨ SplitsCharacter source place) ∧
      (SplitsCharacter source place → IsBoundary source (place + 1) → place < start) := by
  have hle := hplace.le
  have hread := slice_boundaries (Nat.zero_le _) (Nat.min_le_right (place + 32) (byteSize source))
  rw [floorBoundary, window_min (by omega)] at hread
  obtain ⟨hceil, hceilGe, hceilLeast⟩ := ceilBoundary_spec (Nat.min_le_right (place + 32) (byteSize source))
  rw [excerptAfter]
  generalize window 0 (place + 32) 0 source = read at hread ⊢
  generalize ceilBoundary source (min (place + 32) (byteSize source)) = stop at hread hceil hceilGe hceilLeast
  obtain ⟨⟨before, after, hsource, hbefore⟩, hstop⟩ := slice_eq_ok_iff.1 hread
  obtain rfl : before = [] := byteSize_eq_zero_iff.1 hbefore
  rw [List.nil_append] at hsource
  rw [Nat.zero_add] at hstop
  have hsplits : SplitsCharacter source place ↔ place + 32 < stop := by
    constructor
    · rintro ⟨hinside, hcut⟩
      rw [Nat.min_eq_left hinside.le] at hceilGe
      exact lt_of_le_of_ne hceilGe fun heq => hcut (heq ▸ hceil)
    · intro hlong
      refine ⟨?_, fun hbound => ?_⟩
      · by_contra hend
        have hleast := hceilLeast _ (Nat.min_le_right _ _) (isBoundary_byteSize source)
        omega
      · have hleast := hceilLeast _ (Nat.min_le_left _ _) hbound
        omega
  rw [hsplits]
  split
  · exact ⟨0, stop, ⟨hread, by omega, by omega, by omega⟩, .inl (Nat.zero_le place), by omega⟩
  · next hlong =>
    have hlast := slice_boundaries (Nat.sub_le (byteSize read) 32) (Nat.le_refl (byteSize read))
    have hend : ceilBoundary read (byteSize read) = byteSize read := by
      rw [ceilBoundary, if_neg (Nat.lt_irrefl _)]
    obtain ⟨-, hfloor, hfloorMost⟩ := floorBoundary_spec read (byteSize read - 32)
    have hfloorNear := le_floorBoundary_add (Nat.sub_le (byteSize read) 32)
    obtain ⟨hstands, hsize⟩ := slice_eq_ok_iff.1 hlast
    rw [hend] at hsize
    have hcut := (hstands.append after).slice_eq (hstop.trans hsize)
    rw [← hsource] at hcut
    refine ⟨_, stop, ⟨hcut, by omega, by omega, by omega⟩, by omega, fun hover hnext => ?_⟩
    rw [hsource] at hnext
    exact hfloorMost _ (by omega) (hnext.of_append (by omega))

end

/-! ### Errors -/

theorem Tokenized.standsAt {source text left : List Char} {place stop : Nat} {found : List Token}
    (h : Tokenized place text found stop left) (hstands : StandsAt source place text) :
    StandsAt source stop left := by
  induction h with
  | nil => exact hstands
  | text _ _ _ _ ih => exact ih hstands.right
  | comment _ _ _ ih =>
    rw [← List.append_assoc _ _ (_ ++ _), ← List.append_assoc] at hstands
    exact ih hstands.right
  | tag _ _ _ ih => exact ih hstands.right.right.right

/-- A tag without an end starts with a brace, so behind its first byte there is a boundary. -/
theorem isBoundary_of_tokens_error {source : String} {error : ParseError} (h : tokens source = .error error) :
    IsBoundary source.toList (error.offset + 1) := by
  obtain ⟨found, place, rest, htokens, hunclosed, rfl⟩ := tokens_eq_error_iff.1 h
  have hstands := htokens.standsAt (.whole source.toList)
  obtain ⟨behind, rfl⟩ : ∃ behind, rest = '{' :: behind := by
    cases hunclosed with
    | comment => exact ⟨_, rfl⟩
    | tag => exact ⟨_, rfl⟩
  exact hstands.tail.start

theorem exists_fault {source : String} {error : ParseError}
    (h : tokens source = .error error ∨ parse source = .error error) :
    ∃ fault : Fault, IsBoundary source.toList fault.place ∧ error = fault.inSource source.toList := by
  have hreader : ∀ {α : Type} {checked : Checked α} {reader : Except Fault α},
      Agrees source.toList Eq checked reader → reader.mapError (·.inSource source.toList) = .error error →
      ∃ fault : Fault, IsBoundary source.toList fault.place ∧ error = fault.inSource source.toList := by
    intro α checked reader hagrees herror
    cases hagrees with
    | done => cases herror
    | @refused fault hplace => exact ⟨fault, hplace, (Except.error.inj herror).symm⟩
  rcases h with herror | herror
  · rw [tokens_eq_tokensOf] at herror
    exact hreader (lexFrom_agrees (slice_whole source.toList)) herror
  · exact hreader (parseAt_agrees source.toList) herror

/-- The place of an error is a boundary, and its excerpt is a short text between two boundaries that
reaches beyond it. The excerpt starts no later than the place, except for a tag without an end when
the thirty-two bytes from its start on stop inside a character. There it does start later. -/
theorem ParseError.near_reaches {source : String} {error : ParseError}
    (h : tokens source = .error error ∨ parse source = .error error) :
    IsBoundary source.toList error.offset ∧
      ∃ start stop, Reaches source.toList error.offset error.near.toList start stop ∧
        (start ≤ error.offset ∨ error.cause = .unterminatedTag ∧ SplitsCharacter source.toList error.offset) ∧
        (tokens source = .error error → SplitsCharacter source.toList error.offset → error.offset < start) := by
  have hnext := fun htokens : tokens source = .error error => isBoundary_of_tokens_error htokens
  obtain ⟨fault, hplace, rfl⟩ := exists_fault h
  refine ⟨hplace, ?_⟩
  by_cases hcause : fault.cause = .unterminatedTag
  · obtain ⟨start, stop, hreaches, hstart, hsplits⟩ := excerptAfter_reaches hplace
    refine ⟨start, stop, ?_, hstart.imp_right (⟨hcause, ·⟩), fun htokens hsplit => ?_⟩
    · simpa [Fault.inSource, hcause] using hreaches
    · exact hsplits hsplit (hnext htokens)
  · obtain ⟨start, stop, hreaches, hstart⟩ := excerptAround_reaches hplace
    refine ⟨start, stop, ?_, .inl hstart, fun htokens => ?_⟩
    · simpa [Fault.inSource, hcause] using hreaches
    · obtain ⟨_, _, _, -, -, herror⟩ := tokens_eq_error_iff.1 htokens
      exact absurd (congrArg ParseError.cause herror) hcause

/-- A tag without an end that takes thirty-five bytes, with a character of four bytes at its end.
Its last thirty-two bytes are shown, without the two braces. -/
def unclosedSource : String :=
  "\x7b\x7baaaaaaaaaaaaaaaaaaaaaaaaaaaaa😀"

theorem ParseError.near_reaches_unclosed :
    ∃ error start stop, parse unclosedSource = .error error ∧
      Reaches unclosedSource.toList error.offset error.near.toList start stop ∧ error.offset < start := by
  have htokens : tokens unclosedSource = .error ⟨.unterminatedTag, 0, "aaaaaaaaaaaaaaaaaaaaaaaaaaaa😀"⟩ := rfl
  obtain ⟨-, start, stop, hreaches, -, hbehind⟩ := ParseError.near_reaches (.inl htokens)
  have hsplits : SplitsCharacter unclosedSource.toList 0 :=
    ⟨by decide, fun hbound => absurd (isBoundary_iff.2 hbound) (by decide)⟩
  exact ⟨_, start, stop, rfl, hreaches, hbehind htokens hsplits⟩

/-- The excerpt of this tag is none of the texts that start at its place or before. -/
theorem ParseError.near_misses_offset :
    ∃ error, parse unclosedSource = .error error ∧ tokens unclosedSource = .error error ∧
      ¬∃ start stop, start ≤ error.offset ∧ slice unclosedSource.toList start stop = .ok error.near.toList := by
  refine ⟨⟨.unterminatedTag, 0, "aaaaaaaaaaaaaaaaaaaaaaaaaaaa😀"⟩, rfl, rfl, ?_⟩
  rintro ⟨start, stop, hstart, hslice⟩
  obtain rfl : start = 0 := Nat.le_zero.1 hstart
  obtain ⟨⟨before, after, hsource, hbefore⟩, -⟩ := slice_eq_ok_iff.1 hslice
  obtain rfl : before = [] := byteSize_eq_zero_iff.1 hbefore
  have hfirst := congrArg List.head? hsource
  simp [unclosedSource] at hfirst

end Stencil
