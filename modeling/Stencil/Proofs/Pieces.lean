import Stencil.Text.Pieces
import Mathlib.Algebra.GroupWithZero.Nat
import Mathlib.Data.List.Basic

/-!
# Pieces and separators

A list falls into pieces exactly if it consists of these pieces, with one separator between each two
of them and none inside. So its pieces do not depend on which separators stand there.
-/

namespace Stencil

variable {α : Type} {separates : α → Bool}

/-- The list consists of the pieces, with one separator between each two of them and none inside. -/
inductive Joined (separates : α → Bool) : List α → List (List α) → Prop where
  | single {piece : List α} :
    (∀ element ∈ piece, separates element = false) → Joined separates piece [piece]
  | cons {piece rest : List α} {separator : α} {others : List (List α)} :
    (∀ element ∈ piece, separates element = false) → separates separator = true →
    Joined separates rest others → Joined separates (piece ++ separator :: rest) (piece :: others)

namespace Joined

variable {elements : List α} {found : List (List α)}

theorem ne_nil (h : Joined separates elements found) : found ≠ [] := by
  cases h <;> simp

theorem not_separates (h : Joined separates elements found) :
    ∀ piece ∈ found, ∀ element ∈ piece, separates element = false := by
  induction h with
  | single hpiece => exact List.forall_mem_singleton.2 hpiece
  | cons hpiece _ _ ih => exact List.forall_mem_cons.2 ⟨hpiece, ih⟩

/-- Only the number of separators counts for the length, not what they are. -/
theorem length_eq (h : Joined separates elements found) :
    elements.length + 1 = (found.map fun piece => piece.length + 1).sum := by
  induction h with
  | single => simp
  | cons _ _ _ ih =>
    rw [List.map_cons, List.sum_cons, ← ih, List.length_append, List.length_cons]
    omega

theorem pieces_eq (h : Joined separates elements found) : pieces separates elements = found := by
  induction h with
  | @single piece hpiece =>
    induction piece with
    | nil => rfl
    | cons element piece ih =>
      obtain ⟨hplain, hpiece⟩ := List.forall_mem_cons.1 hpiece
      rw [pieces, if_neg (by simp [hplain]), ih hpiece]
  | @cons piece rest separator others hpiece hseparator _ ih =>
    induction piece with
    | nil => rw [List.nil_append, pieces, if_pos hseparator, ih]
    | cons element piece ih' =>
      obtain ⟨hplain, hpiece⟩ := List.forall_mem_cons.1 hpiece
      rw [List.cons_append, pieces, if_neg (by simp [hplain]), ih' hpiece]

theorem cons_plain {element : α} {piece : List α} {others : List (List α)} (hplain : separates element = false)
    (h : Joined separates elements (piece :: others)) :
    Joined separates (element :: elements) ((element :: piece) :: others) := by
  cases h with
  | single hpiece => exact .single (List.forall_mem_cons.2 ⟨hplain, hpiece⟩)
  | cons hpiece hseparator hrest =>
    have hfirst : ∀ other ∈ element :: piece, separates other = false := List.forall_mem_cons.2 ⟨hplain, hpiece⟩
    exact .cons hfirst hseparator hrest

theorem of_pieces (elements : List α) : Joined separates elements (pieces separates elements) := by
  induction elements with
  | nil => exact .single (by simp)
  | cons element rest ih =>
    rw [pieces]
    split
    · next hseparator =>
      have hempty : ∀ other ∈ [], separates other = false := by simp
      exact .cons hempty hseparator ih
    · next hplain =>
      split
      · next piece others hrest =>
        rw [hrest] at ih
        exact ih.cons_plain (by simpa using hplain)
      · next hnil => exact absurd hnil ih.ne_nil

theorem intercalate {separator : α} (hseparator : separates separator = true) (hne : found ≠ [])
    (h : ∀ piece ∈ found, ∀ element ∈ piece, separates element = false) :
    Joined separates ([separator].intercalate found) found := by
  induction found with
  | nil => exact absurd rfl hne
  | cons piece others ih =>
    obtain ⟨hpiece, hothers⟩ := List.forall_mem_cons.1 h
    cases others with
    | nil => simpa using Joined.single hpiece
    | cons next others =>
      rw [List.intercalate_cons_cons]
      simpa using Joined.cons hpiece hseparator (ih (by simp) hothers)

end Joined

theorem not_separates_of_mem_pieces {elements piece : List α} (hpiece : piece ∈ pieces separates elements) :
    ∀ element ∈ piece, separates element = false :=
  (Joined.of_pieces elements).not_separates piece hpiece

/-! ### Element by element -/

theorem pieces_ne_nil (separates : α → Bool) (elements : List α) : pieces separates elements ≠ [] :=
  (Joined.of_pieces elements).ne_nil

theorem pieces_cons_of_separates {first : α} (h : separates first = true) (rest : List α) :
    pieces separates (first :: rest) = [] :: pieces separates rest := by
  rw [pieces, if_pos h]

theorem pieces_cons_of_plain {first : α} {rest piece : List α} {others : List (List α)}
    (h : separates first = false) (hrest : pieces separates rest = piece :: others) :
    pieces separates (first :: rest) = (first :: piece) :: others := by
  rw [pieces, if_neg (by simp [h]), hrest]

end Stencil
