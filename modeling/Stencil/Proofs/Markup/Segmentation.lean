import Stencil.Markup.Segment
import Stencil.Proofs.Markup.Quoting
import Mathlib.Data.List.Chain

/-!
# How a template falls into segments

The segments of a template are read one after another, each from the text that is left. A segment
stands if it is read wherever it is written: a text without two braces in a row, a comment, or a tag
whose quotes pair inside it. A row of standing segments in which no text meets another text, or a
brace, is what its own text falls into, whatever comes before or behind.
-/

namespace Stencil

/-! ### Reading one segment -/

def Segment.read? : List Char → Option Segment
  | [] => none
  | char :: rest =>
    if char = '{' ∧ rest.head? = some '{' then Segment.ofTag? rest.tail
    else some (.text (char :: textBeforeTag rest))

theorem Segment.raw_ne_nil_of_read {text : List Char} {segment : Segment}
    (h : Segment.read? text = some segment) : segment.raw ≠ [] := by
  cases text with
  | nil => simp [Segment.read?] at h
  | cons char rest =>
    rw [Segment.read?] at h
    split at h
    · cases segment with
      | text content =>
        rw [Segment.ofTag?.eq_def] at h
        split at h <;> simp at h
      | comment body => simp [Segment.raw]
      | tag kind body => simp [Segment.raw, TagKind.opener]
    · obtain rfl := Option.some.inj h
      simp [Segment.raw]

theorem exists_of_textBeforeTag (text : List Char) : ∃ rest, text = textBeforeTag text ++ rest := by
  induction text with
  | nil => exact ⟨[], rfl⟩
  | cons char rest ih =>
    rw [textBeforeTag]
    split
    · exact ⟨char :: rest, rfl⟩
    · obtain ⟨after, hafter⟩ := ih
      exact ⟨after, by rw [List.cons_append, ← hafter]⟩

theorem exists_of_textBefore {marker text content : List Char}
    (h : textBefore marker text = some content) : ∃ rest, text = content ++ (marker ++ rest) := by
  induction text generalizing content with
  | nil => simp [textBefore] at h
  | cons char rest ih =>
    rw [textBefore] at h
    split at h
    · next hmarker =>
      obtain rfl := Option.some.inj h
      obtain ⟨after, hafter⟩ := List.isPrefixOf_iff_prefix.1 hmarker
      exact ⟨after, hafter.symm⟩
    · obtain ⟨tail, htail, rfl⟩ := Option.map_eq_some_iff.1 h
      obtain ⟨after, rfl⟩ := ih htail
      exact ⟨after, rfl⟩

theorem exists_of_bodyBefore {closer text body : List Char} {inside : Nat}
    (h : bodyBefore closer inside text = some body) : ∃ rest, text = body ++ (closer ++ rest) := by
  induction text generalizing inside body with
  | nil => simp [bodyBefore] at h
  | cons char rest ih =>
    have hmap : ∀ inside, (bodyBefore closer inside rest).map (char :: ·) = some body →
        ∃ after, char :: rest = body ++ (closer ++ after) := by
      intro inside hinside
      obtain ⟨tail, htail, rfl⟩ := Option.map_eq_some_iff.1 hinside
      obtain ⟨after, rfl⟩ := ih htail
      exact ⟨after, rfl⟩
    cases inside with
    | succ inside => exact hmap inside h
    | zero =>
      rw [bodyBefore] at h
      split at h
      · exact hmap _ h
      · split at h
        · next hcloser =>
          obtain rfl := Option.some.inj h
          obtain ⟨after, hafter⟩ := List.isPrefixOf_iff_prefix.1 hcloser
          exact ⟨after, hafter.symm⟩
        · exact hmap 0 h

theorem exists_of_commentBody {text body : List Char} (h : commentBody text = some body) :
    ∃ rest, text = body ++ ('}' :: '}' :: rest) := by
  rw [commentBody] at h
  split at h
  · obtain ⟨content, hcontent, rfl⟩ := Option.map_eq_some_iff.1 h
    obtain ⟨rest, rfl⟩ := exists_of_textBefore hcontent
    exact ⟨rest, by simp⟩
  · exact exists_of_textBefore h

theorem TagKind.ofText_eq (text : List Char) :
    text = (TagKind.ofText text).1.marker ++ (TagKind.ofText text).2 := by
  rw [TagKind.ofText.eq_def]
  split <;> rfl

theorem Segment.ofTag?_comment (text : List Char) :
    Segment.ofTag? ('!' :: text) = (commentBody text).map .comment :=
  rfl

theorem Segment.ofTag?_tag {text : List Char} (h : text.head? ≠ some '!') :
    Segment.ofTag? text =
      (bodyBefore (TagKind.ofText text).1.closer 0 (TagKind.ofText text).2).map
        (.tag (TagKind.ofText text).1) := by
  rw [Segment.ofTag?.eq_def]
  split
  · simp at h
  · rfl

theorem Segment.exists_of_read {text : List Char} {segment : Segment}
    (h : Segment.read? text = some segment) : ∃ rest, text = segment.raw ++ rest := by
  cases text with
  | nil => simp [Segment.read?] at h
  | cons char rest =>
    rw [Segment.read?] at h
    split at h
    · next hopen =>
      obtain ⟨rfl, hhead⟩ := hopen
      obtain ⟨after, rfl⟩ : ∃ after, rest = '{' :: after := by
        cases rest with
        | nil => simp at hhead
        | cons next after => exact ⟨after, by simpa using hhead⟩
      rw [List.tail_cons] at h
      by_cases hcomment : after.head? = some '!'
      · obtain ⟨text, rfl⟩ := List.head?_eq_some_iff.1 hcomment
        rw [Segment.ofTag?_comment] at h
        obtain ⟨body, hbody, hsegment⟩ := Option.map_eq_some_iff.1 h
        obtain ⟨rest, hrest⟩ := exists_of_commentBody hbody
        exact ⟨rest, by rw [hrest, ← hsegment, Segment.raw]; simp⟩
      · rw [Segment.ofTag?_tag hcomment] at h
        obtain ⟨body, hbody, hsegment⟩ := Option.map_eq_some_iff.1 h
        obtain ⟨rest, hrest⟩ := exists_of_bodyBefore hbody
        have hafter := TagKind.ofText_eq after
        rw [hrest] at hafter
        refine ⟨rest, ?_⟩
        rw [← hsegment, Segment.raw, TagKind.opener]
        simpa using hafter
    · obtain rfl := Option.some.inj h
      obtain ⟨after, hafter⟩ := exists_of_textBeforeTag rest
      exact ⟨after, by rw [Segment.raw, List.cons_append, ← hafter]⟩

/-! ### Reading all segments -/

/-- The segments that a text falls into. -/
inductive Segmented : List Char → List Segment → Prop where
  | nil : Segmented [] []
  | cons {segment : Segment} {rest : List Char} {segments : List Segment} :
    Segment.read? (segment.raw ++ rest) = some segment → Segmented rest segments →
    Segmented (segment.raw ++ rest) (segment :: segments)

theorem Segmented.flatMap_raw {text : List Char} {segments : List Segment}
    (h : Segmented text segments) : segments.flatMap Segment.raw = text := by
  induction h with
  | nil => rfl
  | cons _ _ ih => rw [List.flatMap_cons, ih]

theorem Segment.step_eq (place : Nat) (char : Char) (rest : List Char) :
    Segment.step place char rest = match Segment.read? (char :: rest) with
      | some segment => .ok (some segment, segment.raw.length - 1)
      | none => .error ⟨.unterminatedTag, place⟩ := by
  rw [Segment.step, Segment.read?]
  split
  · rfl
  · rfl

/-- A scan reads the segment that starts a text and goes on behind it. -/
theorem scan_segment {segment : Segment} {rest : List Char}
    (h : Segment.read? (segment.raw ++ rest) = some segment) (place : Nat) :
    scan Segment.step 0 place (segment.raw ++ rest) =
      (scan Segment.step 0 (place + byteSize segment.raw) rest).add (some segment) := by
  obtain ⟨char, raw, hraw⟩ := List.exists_cons_of_ne_nil (Segment.raw_ne_nil_of_read h)
  rw [hraw, List.cons_append] at h
  rw [hraw, List.cons_append, scan, Segment.step_eq, h]
  simp only [hraw, List.length_cons, Nat.add_sub_cancel]
  rw [scan_skip, List.take_left, List.drop_left, byteSize, Nat.add_assoc]

theorem scan_eq_of_segmented {text : List Char} {segments : List Segment}
    (h : Segmented text segments) (place : Nat) :
    scan Segment.step 0 place text = ⟨segments, none⟩ := by
  induction h generalizing place with
  | nil => rfl
  | cons hread _ ih => rw [scan_segment hread, ih]; rfl

theorem segmented_of_scan {place : Nat} {text : List Char} {segments : List Segment}
    (h : scan Segment.step 0 place text = ⟨segments, none⟩) : Segmented text segments := by
  induction hlength : text.length using Nat.strong_induction_on generalizing place text segments with
  | _ length ih =>
    cases text with
    | nil =>
      obtain rfl : [] = segments := by simpa [scan] using h
      exact .nil
    | cons char rest =>
      cases hread : Segment.read? (char :: rest) with
      | none => simp [scan, Segment.step_eq, hread] at h
      | some segment =>
        obtain ⟨after, hafter⟩ := Segment.exists_of_read hread
        rw [hafter] at h hread
        rw [hafter]
        rw [scan_segment hread] at h
        simp only [Scanned.add, Scanned.mk.injEq] at h
        obtain ⟨rfl, hfailure⟩ := h
        refine .cons hread (ih after.length ?_ (congrArg (Scanned.mk _) hfailure) rfl)
        · have hpos := List.length_pos_of_ne_nil (Segment.raw_ne_nil_of_read hread)
          rw [← hlength, hafter, List.length_append]
          omega

/-- A template is read to its end exactly if it falls into segments, and these are what is read. -/
theorem segments_all_eq_ok_iff {source : List Char} {found : List Segment} :
    (segments source).all = .ok found ↔ Segmented source found := by
  constructor
  · intro h
    rw [Stencil.segments] at h
    rcases hscan : scan Segment.step 0 0 source with ⟨items, _ | failure⟩
    · rw [hscan] at h
      obtain rfl : items = found := by simpa [Scanned.all] using h
      exact segmented_of_scan hscan
    · rw [hscan] at h
      simp [Scanned.all] at h
  · intro h
    rw [Stencil.segments, scan_eq_of_segmented h]
    rfl

end Stencil
