import Stencil.Markup.Error
import Mathlib.Data.List.Basic

/-!
# Checked slices

A reader that works on byte places takes parts out of a text by two places. That fails for good,
which is a panic, unless the first place is not behind the second, the second not behind the end,
and both lie between two characters. The parts of a text that stand somewhere in it can always be
taken out.

The excerpt of an error is cut out between places that are moved to the next boundary on the left
and on the right, so it can be taken out as well.
-/

namespace Stencil

/-- Why a checked reader does not come to its end. -/
inductive Stop where
  | panic
  | refused (error : ParseError)

abbrev Checked := Except Stop

/-! ### Boundaries -/

/-- A place between two characters of a text, or at one of its ends. -/
def IsBoundary (source : List Char) (place : Nat) : Prop :=
  ∃ before after, source = before ++ after ∧ byteSize before = place

def StandsAt (source : List Char) (place : Nat) (text : List Char) : Prop :=
  ∃ before after, source = before ++ (text ++ after) ∧ byteSize before = place

theorem IsBoundary.le {source : List Char} {place : Nat} (h : IsBoundary source place) :
    place ≤ byteSize source := by
  obtain ⟨before, after, rfl, rfl⟩ := h
  rw [byteSize_append]
  exact Nat.le_add_right _ _

theorem isBoundary_zero (source : List Char) : IsBoundary source 0 :=
  ⟨[], source, rfl, rfl⟩

theorem isBoundary_byteSize (source : List Char) : IsBoundary source (byteSize source) :=
  ⟨source, [], by simp, rfl⟩

namespace StandsAt

variable {source text : List Char} {place : Nat}

theorem whole (source : List Char) : StandsAt source 0 source :=
  ⟨[], [], by simp, rfl⟩

theorem start (h : StandsAt source place text) : IsBoundary source place := by
  obtain ⟨before, after, hsource, hplace⟩ := h
  exact ⟨before, text ++ after, hsource, hplace⟩

theorem left {front back : List Char} (h : StandsAt source place (front ++ back)) :
    StandsAt source place front := by
  obtain ⟨before, after, rfl, hplace⟩ := h
  exact ⟨before, back ++ after, by simp, hplace⟩

theorem right {front back : List Char} (h : StandsAt source place (front ++ back)) :
    StandsAt source (place + byteSize front) back := by
  obtain ⟨before, after, rfl, rfl⟩ := h
  exact ⟨before ++ front, after, by simp, by simp⟩

theorem stop (h : StandsAt source place text) : IsBoundary source (place + byteSize text) := by
  rw [← List.append_nil text] at h
  exact h.right.start

theorem tail {char : Char} {rest : List Char} (h : StandsAt source place (char :: rest)) :
    StandsAt source (place + char.utf8Size) rest := by
  rw [← List.singleton_append] at h
  simpa [byteSize] using h.right

end StandsAt

theorem IsBoundary.standsAt {source : List Char} {start stop : Nat} (hstart : IsBoundary source start)
    (hstop : IsBoundary source stop) (hle : start ≤ stop) :
    ∃ text, StandsAt source start text ∧ stop = start + byteSize text := by
  obtain ⟨before, rest, rfl, rfl⟩ := hstart
  obtain ⟨front, after, hsplit, rfl⟩ := hstop
  rcases List.append_eq_append_iff.1 hsplit with ⟨text, rfl, rfl⟩ | ⟨excess, rfl, rfl⟩
  · exact ⟨text, ⟨before, after, rfl, rfl⟩, byteSize_append before text⟩
  · rw [byteSize_append] at hle
    obtain rfl : excess = [] := byteSize_eq_zero_iff.1 (by omega)
    exact ⟨[], ⟨front, rest, by simp, by simp⟩, by simp [byteSize]⟩

/-! ### Slices -/

/-- The text behind so many bytes, if they end with a character. -/
def behind? : Nat → List Char → Option (List Char)
  | 0, text => some text
  | _ + 1, [] => none
  | bytes + 1, char :: rest =>
    if char.utf8Size ≤ bytes + 1 then behind? (bytes + 1 - char.utf8Size) rest else none

/-- The text that so many bytes hold, if they end with a character. -/
def ahead? : Nat → List Char → Option (List Char)
  | 0, _ => some []
  | _ + 1, [] => none
  | bytes + 1, char :: rest =>
    if char.utf8Size ≤ bytes + 1 then (ahead? (bytes + 1 - char.utf8Size) rest).map (char :: ·) else none

/-- The part of a text between two places, or a panic if they do not bound one. -/
def slice (source : List Char) (start stop : Nat) : Checked (List Char) :=
  match if start ≤ stop then (behind? start source).bind (ahead? (stop - start)) else none with
  | some text => .ok text
  | none => .error .panic

theorem behind?_append (left right : List Char) : behind? (byteSize left) (left ++ right) = some right := by
  induction left with
  | nil => cases right <;> rfl
  | cons char rest ih =>
    have hpos := char.utf8Size_pos
    obtain ⟨bytes, hbytes⟩ : ∃ bytes, char.utf8Size + byteSize rest = bytes + 1 :=
      ⟨char.utf8Size + byteSize rest - 1, by omega⟩
    rw [byteSize, hbytes, List.cons_append, behind?, if_pos (by omega), ← hbytes, Nat.add_sub_cancel_left, ih]

theorem ahead?_append (left right : List Char) : ahead? (byteSize left) (left ++ right) = some left := by
  induction left with
  | nil => cases right <;> rfl
  | cons char rest ih =>
    have hpos := char.utf8Size_pos
    obtain ⟨bytes, hbytes⟩ : ∃ bytes, char.utf8Size + byteSize rest = bytes + 1 :=
      ⟨char.utf8Size + byteSize rest - 1, by omega⟩
    rw [byteSize, hbytes, List.cons_append, ahead?, if_pos (by omega), ← hbytes, Nat.add_sub_cancel_left, ih]
    rfl

theorem exists_of_behind {bytes : Nat} {source rest : List Char} (h : behind? bytes source = some rest) :
    ∃ before, source = before ++ rest ∧ byteSize before = bytes := by
  induction source generalizing bytes with
  | nil =>
    cases bytes with
    | zero => exact ⟨[], Option.some.inj h, rfl⟩
    | succ bytes => cases h
  | cons char text ih =>
    cases bytes with
    | zero => exact ⟨[], Option.some.inj h, rfl⟩
    | succ bytes =>
      rw [behind?] at h
      split at h
      · next hle =>
        obtain ⟨before, rfl, hsize⟩ := ih h
        exact ⟨char :: before, rfl, by rw [byteSize, hsize]; omega⟩
      · cases h

theorem exists_of_ahead {bytes : Nat} {source text : List Char} (h : ahead? bytes source = some text) :
    ∃ after, source = text ++ after ∧ byteSize text = bytes := by
  induction source generalizing bytes text with
  | nil =>
    cases bytes with
    | zero =>
      obtain rfl := Option.some.inj h
      exact ⟨[], rfl, rfl⟩
    | succ bytes => cases h
  | cons char rest ih =>
    cases bytes with
    | zero =>
      obtain rfl := Option.some.inj h
      exact ⟨char :: rest, rfl, rfl⟩
    | succ bytes =>
      rw [ahead?] at h
      split at h
      · next hle =>
        obtain ⟨more, hmore, rfl⟩ := Option.map_eq_some_iff.1 h
        obtain ⟨after, rfl, hsize⟩ := ih hmore
        exact ⟨after, rfl, by rw [byteSize, hsize]; omega⟩
      · cases h

theorem slice_eq_ok_iff {source text : List Char} {start stop : Nat} :
    slice source start stop = .ok text ↔ StandsAt source start text ∧ stop = start + byteSize text := by
  constructor
  · intro h
    rw [slice] at h
    split at h
    · next found hfound =>
      obtain rfl := Except.ok.inj h
      split at hfound
      · next hle =>
        obtain ⟨rest, hrest, htext⟩ := Option.bind_eq_some_iff.1 hfound
        obtain ⟨before, rfl, hbefore⟩ := exists_of_behind hrest
        obtain ⟨after, rfl, hsize⟩ := exists_of_ahead htext
        exact ⟨⟨before, after, rfl, hbefore⟩, by omega⟩
      · cases hfound
    · cases h
  · rintro ⟨⟨before, after, rfl, rfl⟩, rfl⟩
    rw [slice, if_pos (Nat.le_add_right _ _), behind?_append, Nat.add_sub_cancel_left, Option.bind_some,
      ahead?_append]

theorem StandsAt.slice_eq {source text : List Char} {start stop : Nat} (h : StandsAt source start text)
    (hstop : stop = start + byteSize text) : slice source start stop = .ok text :=
  slice_eq_ok_iff.2 ⟨h, hstop⟩

/-- A span bounds a part of a text: it is in order and inside the text, and cuts no character. -/
structure Span.Bounds (span : Span) (source : List Char) : Prop where
  ordered : span.start ≤ span.stop
  inside : span.stop ≤ byteSize source
  start : IsBoundary source span.start
  stop : IsBoundary source span.stop

theorem StandsAt.bounds {source text : List Char} {place : Nat} (h : StandsAt source place text) :
    Span.Bounds ⟨place, place + byteSize text⟩ source :=
  ⟨Nat.le_add_right _ _, h.stop.le, h.start, h.stop⟩

theorem slice_bounds {source text : List Char} {start stop : Nat} (h : slice source start stop = .ok text) :
    Span.Bounds ⟨start, stop⟩ source := by
  obtain ⟨hstands, rfl⟩ := slice_eq_ok_iff.1 h
  exact hstands.bounds

theorem exists_slice_of_bounds {source : List Char} {span : Span} (h : span.Bounds source) :
    ∃ text, slice source span.start span.stop = .ok text := by
  obtain ⟨text, hstands, hstop⟩ := h.start.standsAt h.stop h.ordered
  exact ⟨text, hstands.slice_eq hstop⟩

/-- A slice is a panic exactly if its places do not bound a part of the text. -/
theorem slice_eq_panic_iff {source : List Char} {start stop : Nat} :
    slice source start stop = .error .panic ↔ ¬Span.Bounds ⟨start, stop⟩ source := by
  constructor
  · intro h hbounds
    obtain ⟨text, htext⟩ := exists_slice_of_bounds hbounds
    rw [h] at htext
    cases htext
  · intro hbounds
    rw [slice]
    split
    · next text htext => exact absurd (slice_bounds (by rw [slice, htext])) hbounds
    · rfl

/-- A place inside a character is none to slice at. -/
example : slice ['é'] 1 2 = .error .panic := rfl

theorem slice_whole (source : List Char) : slice source 0 (byteSize source) = .ok source :=
  (StandsAt.whole source).slice_eq (Nat.zero_add _).symm

section

variable {source front back : List Char} {start stop : Nat}

theorem slice_left (h : slice source start stop = .ok (front ++ back)) :
    slice source start (start + byteSize front) = .ok front :=
  (slice_eq_ok_iff.1 h).1.left.slice_eq rfl

theorem slice_right (h : slice source start stop = .ok (front ++ back)) :
    slice source (start + byteSize front) stop = .ok back := by
  obtain ⟨hstands, rfl⟩ := slice_eq_ok_iff.1 h
  exact hstands.right.slice_eq (by rw [byteSize_append, Nat.add_assoc])

end

/-! ### The next boundaries -/

def isBoundary (source : List Char) (place : Nat) : Bool :=
  (behind? place source).isSome

theorem isBoundary_iff {source : List Char} {place : Nat} :
    isBoundary source place = true ↔ IsBoundary source place := by
  rw [isBoundary, Option.isSome_iff_exists]
  constructor
  · rintro ⟨rest, hrest⟩
    obtain ⟨before, rfl, hbefore⟩ := exists_of_behind hrest
    exact ⟨before, rest, rfl, hbefore⟩
  · rintro ⟨before, after, rfl, rfl⟩
    exact ⟨after, behind?_append before after⟩

def floorBoundary (source : List Char) : Nat → Nat
  | 0 => 0
  | place + 1 => if isBoundary source (place + 1) then place + 1 else floorBoundary source place

def ceilBoundary (source : List Char) (place : Nat) : Nat :=
  if place < byteSize source then
    if isBoundary source place then place else ceilBoundary source (place + 1)
  else place
termination_by byteSize source - place

theorem floorBoundary_spec (source : List Char) (place : Nat) :
    IsBoundary source (floorBoundary source place) ∧ floorBoundary source place ≤ place ∧
      ∀ other ≤ place, IsBoundary source other → other ≤ floorBoundary source place := by
  induction place with
  | zero => exact ⟨isBoundary_zero source, Nat.le_refl _, fun other hother _ => hother⟩
  | succ place ih =>
    rw [floorBoundary]
    split
    · next hboundary => exact ⟨isBoundary_iff.1 hboundary, Nat.le_refl _, fun other hother _ => hother⟩
    · next hboundary =>
      obtain ⟨hfloor, hle, hleast⟩ := ih
      refine ⟨hfloor, Nat.le_succ_of_le hle, fun other hother hbound => ?_⟩
      rcases Nat.lt_or_eq_of_le hother with hlt | rfl
      · exact hleast other (Nat.le_of_lt_succ hlt) hbound
      · exact absurd (isBoundary_iff.2 hbound) hboundary

theorem ceilBoundary_spec {source : List Char} {place : Nat} (hplace : place ≤ byteSize source) :
    IsBoundary source (ceilBoundary source place) ∧ place ≤ ceilBoundary source place ∧
      ∀ other, place ≤ other → IsBoundary source other → ceilBoundary source place ≤ other := by
  fun_induction ceilBoundary source place with
  | case1 place hlt hboundary =>
    exact ⟨isBoundary_iff.1 hboundary, Nat.le_refl _, fun other hother _ => hother⟩
  | case2 place hlt hboundary ih =>
    obtain ⟨hceil, hle, hleast⟩ := ih hlt
    refine ⟨hceil, Nat.le_of_succ_le hle, fun other hother hbound => hleast other ?_ hbound⟩
    rcases Nat.lt_or_eq_of_le hother with hnext | rfl
    · exact hnext
    · exact absurd (isBoundary_iff.2 hbound) hboundary
  | case3 place hge =>
    have heq : place = byteSize source := by omega
    exact ⟨heq ▸ isBoundary_byteSize source, Nat.le_refl _, fun other hother _ => hother⟩

/-! ### Windows -/

theorem window_append (low high start : Nat) (left right : List Char) :
    window low high start (left ++ right) =
      window low high start left ++ window low high (start + byteSize left) right := by
  induction left generalizing start with
  | nil => rfl
  | cons char rest ih =>
    simp only [List.cons_append, window, ih, byteSize, Nat.add_assoc]
    split
    · rfl
    · rfl

theorem window_eq_nil {low high start : Nat} {text : List Char}
    (h : start + byteSize text ≤ low ∨ high ≤ start) : window low high start text = [] := by
  induction text generalizing start with
  | nil => rfl
  | cons char rest ih =>
    simp only [byteSize] at h
    rw [window, if_neg (by omega)]
    exact ih (by omega)

theorem window_eq_self {low high start : Nat} {text : List Char}
    (hlow : ∀ before char after, text = before ++ char :: after →
      low < start + byteSize before + char.utf8Size)
    (hhigh : ∀ before char after, text = before ++ char :: after → start + byteSize before < high) :
    window low high start text = text := by
  induction text generalizing start with
  | nil => rfl
  | cons char rest ih =>
    have hfirst := hhigh [] char rest rfl
    have hlast := hlow [] char rest rfl
    rw [byteSize, Nat.add_zero] at hfirst hlast
    rw [window, if_pos ⟨hfirst, hlast⟩, ih]
    · rintro before other after rfl
      have hother := hlow (char :: before) other after rfl
      rwa [byteSize, ← Nat.add_assoc] at hother
    · rintro before other after rfl
      have hother := hhigh (char :: before) other after rfl
      rwa [byteSize, ← Nat.add_assoc] at hother

/-- A window is what stands between the boundaries that its places are moved to. -/
theorem slice_boundaries {source : List Char} {low high : Nat} (hle : low ≤ high)
    (hhigh : high ≤ byteSize source) :
    slice source (floorBoundary source low) (ceilBoundary source high) = .ok (window low high 0 source) := by
  obtain ⟨hfloor, hfloorLe, hfloorMost⟩ := floorBoundary_spec source low
  obtain ⟨hceil, hceilGe, hceilLeast⟩ := ceilBoundary_spec hhigh
  generalize floorBoundary source low = start at hfloor hfloorLe hfloorMost ⊢
  generalize ceilBoundary source high = stop at hceil hceilGe hceilLeast ⊢
  obtain ⟨text, hstands, rfl⟩ := hfloor.standsAt hceil (by omega)
  rw [hstands.slice_eq rfl]
  obtain ⟨before, after, rfl, rfl⟩ := hstands
  have hbefore : window low high 0 before = [] := window_eq_nil (.inl (by omega))
  have hafter : window low high (0 + byteSize before + byteSize text) after = [] :=
    window_eq_nil (.inr (by omega))
  have htext : window low high (0 + byteSize before) text = text := by
    refine window_eq_self ?_ ?_
    · rintro left char right rfl
      by_contra hlow
      have hbound : IsBoundary (before ++ (left ++ char :: right ++ after))
          (byteSize before + byteSize left + char.utf8Size) :=
        ⟨before ++ (left ++ [char]), right ++ after, by simp, by simp [byteSize, Nat.add_assoc]⟩
      have hmost := hfloorMost _ (by omega) hbound
      have hpos := char.utf8Size_pos
      omega
    · rintro left char right rfl
      by_contra hhigh
      have hbound : IsBoundary (before ++ (left ++ char :: right ++ after)) (byteSize before + byteSize left) :=
        ⟨before ++ left, char :: right ++ after, by simp, by simp⟩
      have hleast := hceilLeast _ (by omega) hbound
      have hpos := char.utf8Size_pos
      rw [byteSize_append, byteSize] at hleast
      omega
  rw [window_append, window_append, hbefore, htext, hafter, List.append_nil, List.nil_append]

theorem window_min {low high bound start : Nat} {text : List Char} (h : start + byteSize text ≤ bound) :
    window low (min high bound) start text = window low high start text := by
  induction text generalizing start with
  | nil => rfl
  | cons char rest ih =>
    have hpos := char.utf8Size_pos
    rw [byteSize] at h
    have hsame : (start < min high bound ∧ low < start + char.utf8Size) ↔
        (start < high ∧ low < start + char.utf8Size) := by omega
    simp only [window, hsame, ih (show start + char.utf8Size + byteSize rest ≤ bound by omega)]

/-! ### Errors -/

/-- Refuses a template for a cause that is found at a place, with up to sixteen bytes on either
side. -/
def refuse {α : Type} (source : List Char) (cause : Cause) (place : Nat) : Checked α := do
  let place := min place (byteSize source)
  let near ← slice source (floorBoundary source (place - 16))
    (ceilBoundary source (min (place + 16) (byteSize source)))
  .error (.refused ⟨cause, place, String.ofList near⟩)

/-- The last thirty-two bytes of a text, and the rest of the first character. -/
def lastBytes (text : List Char) : Checked (List Char) :=
  if 32 < byteSize text then slice text (floorBoundary text (byteSize text - 32)) (byteSize text) else .ok text

/-- Refuses a template for a tag without an end that starts at a place, with the last bytes of what
stands up to thirty-two bytes behind it. -/
def refuseUnterminated {α : Type} (source : List Char) (place : Nat) : Checked α := do
  let read ← slice source 0 (ceilBoundary source (min (place + 32) (byteSize source)))
  let near ← lastBytes read
  .error (.refused ⟨.unterminatedTag, place, String.ofList near⟩)

def Fault.stop (source : List Char) (fault : Fault) : Stop :=
  .refused (fault.inSource source)

theorem refuse_eq {α : Type} {source : List Char} {place : Nat} (hplace : IsBoundary source place)
    {cause : Cause} (hcause : cause ≠ .unterminatedTag) :
    (refuse source cause place : Checked α) = .error (Fault.stop source ⟨cause, place⟩) := by
  have hle := hplace.le
  have hnear : slice source (floorBoundary source (place - 16))
      (ceilBoundary source (min (place + 16) (byteSize source))) = .ok (excerptAround place source) :=
    slice_boundaries (by omega) (by omega)
  rw [refuse, Nat.min_eq_left hle]
  simp only [hnear, bind, Except.bind, Fault.stop, Fault.inSource]

theorem refuseUnterminated_eq {α : Type} (source : List Char) (place : Nat) :
    (refuseUnterminated source place : Checked α) =
      .error (Fault.stop source ⟨.unterminatedTag, place⟩) := by
  have hread := slice_boundaries (Nat.zero_le _) (Nat.min_le_right (place + 32) (byteSize source))
  rw [floorBoundary, window_min (by omega)] at hread
  generalize hfound : window 0 (place + 32) 0 source = read at hread
  have hnear : lastBytes read = .ok (excerptAfter place source) := by
    rw [excerptAfter, hfound, lastBytes]
    split
    · next hlong =>
      have hend : ceilBoundary read (byteSize read) = byteSize read := by
        rw [ceilBoundary, if_neg (Nat.lt_irrefl _)]
      have hlast := slice_boundaries (Nat.sub_le (byteSize read) 32) (Nat.le_refl (byteSize read))
      rw [hend] at hlast
      rw [hlast, if_neg (by omega)]
    · next hshort => rw [if_pos (by omega)]
  rw [refuseUnterminated]
  simp only [hread, hnear, bind, Except.bind, Fault.stop, Fault.inSource]

/-! ### Readers that agree -/

/-- A checked reader does what a reader does that only knows of faults: it comes to a related
result, or to the error of the same fault. So it does not panic. The fault is found at a
boundary. -/
inductive Agrees {α β : Type} (source : List Char) (related : α → β → Prop) :
    Checked α → Except Fault β → Prop where
  | done {result : α} {other : β} : related result other → Agrees source related (.ok result) (.ok other)
  | refused {fault : Fault} : IsBoundary source fault.place →
    Agrees source related (.error (fault.stop source)) (.error fault)

namespace Agrees

variable {α β γ δ : Type} {source : List Char} {related : α → β → Prop} {last : γ → δ → Prop}
  {checked : Checked α} {reader : Except Fault β}

theorem bind {next : α → Checked γ} {next' : β → Except Fault δ} (h : Agrees source related checked reader)
    (hnext : ∀ result other, related result other → Agrees source last (next result) (next' other)) :
    Agrees source last (checked >>= next) (reader >>= next') := by
  cases h with
  | done hresult => exact hnext _ _ hresult
  | refused hplace => exact .refused hplace

theorem map {change : α → γ} {change' : β → δ} (h : Agrees source related checked reader)
    (hchange : ∀ result other, related result other → last (change result) (change' other)) :
    Agrees source last (change <$> checked) (reader.map change') := by
  cases h with
  | done hresult => exact .done (hchange _ _ hresult)
  | refused hplace => exact .refused hplace

theorem mono {wider : α → β → Prop} (h : Agrees source related checked reader)
    (hwider : ∀ result other, related result other → wider result other) :
    Agrees source wider checked reader := by
  cases h with
  | done hresult => exact .done (hwider _ _ hresult)
  | refused hplace => exact .refused hplace

theorem with_reader (h : Agrees source related checked reader) :
    Agrees source (fun result other => related result other ∧ reader = .ok other) checked reader := by
  cases h with
  | done hresult => exact .done ⟨hresult, rfl⟩
  | refused hplace => exact .refused hplace

theorem slice_bind {next : List Char → Checked α} {text : List Char} {start stop : Nat}
    (hstands : StandsAt source start text) (hstop : stop = start + byteSize text)
    (h : Agrees source related (next text) reader) :
    Agrees source related (slice source start stop >>= next) reader := by
  rw [hstands.slice_eq hstop]
  exact h

theorem refuse {cause : Cause} (hcause : cause ≠ .unterminatedTag) {place : Nat}
    (hplace : IsBoundary source place) :
    Agrees source related (Stencil.refuse source cause place) (.error ⟨cause, place⟩) := by
  rw [refuse_eq hplace hcause]
  exact .refused hplace

/-- Readers with equal results have all in common, and their errors are found at boundaries. -/
theorem eq {checked : Checked α} {reader : Except Fault α} (h : Agrees source Eq checked reader) :
    checked = (reader.mapError (·.inSource source)).mapError .refused ∧
      ∀ error, reader.mapError (·.inSource source) = .error error → IsBoundary source error.offset := by
  cases h with
  | done hresult =>
    subst hresult
    refine ⟨rfl, ?_⟩
    rintro _ ⟨⟩
  | refused hplace =>
    refine ⟨rfl, ?_⟩
    rintro _ ⟨⟩
    exact hplace

end Agrees

end Stencil
