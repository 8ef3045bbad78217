import Stencil.Proofs.Markup.Derivation
import Stencil.Proofs.Markup.Printing
import Stencil.Proofs.Markup.Spacing

/-!
# Words between quotes

A word between quotes stands behind a blank, as the only word of a tag or behind the name of a
helper. The tag ends behind it, whatever stands between the quotes. As a parameter the word is the
string that it denotes; as the name of a partial it is what stands between the quotes.
-/

namespace Stencil

def betweenQuotes (content : List Char) : List Char :=
  '"' :: (content ++ ['"'])

/-- A name that calls a helper where it starts the body of a tag. -/
structure HelperName (name : List Char) : Prop where
  word : Word.IsName name
  path : Path.ofText? name = some ⟨String.ofList name, 0, false, [String.ofList name]⟩
  literal : String.ofList name ≠ "true" ∧ String.ofList name ≠ "false" ∧ isNumeral name = false
  unmarked : ∀ char ∈ name.head?, char ∉ ['!', '{', '&', '#', '^', '/', '>']
  unclosed : ¬['}', '}'] <:+: name

theorem HelperName.ofWord {name : List Char} (h : HelperName name) (place : Nat) :
    Expr.ofWord ⟨none, String.ofList name, false, place⟩ =
      .ok (.path ⟨String.ofList name, 0, false, [String.ofList name]⟩) := by
  simp [Expr.ofWord, h.literal, h.path]

theorem helperName_h : HelperName ['h'] where
  word := ⟨by decide, List.all_eq_true.1 rfl⟩
  path := by decide
  literal := by decide
  unmarked := by simp
  unclosed := by decide

theorem helperName_if : HelperName ['i', 'f'] where
  word := ⟨by decide, List.all_eq_true.1 rfl⟩
  path := by decide
  literal := by decide
  unmarked := by simp
  unclosed := by decide

variable {content : List Char} (hcontent : IsQuotable content)

include hcontent

/-! ### The words of the tag -/

theorem row_betweenQuotes (place : Nat) :
    Word.Row place (' ' :: betweenQuotes content) [⟨none, String.ofList content, true, place + 1⟩] := by
  have hword : Word.WellFormed ⟨none, String.ofList content, true, place + 1⟩ :=
    ⟨by simp, by simpa using hcontent, by simp, by simp⟩
  have hrow : Word.Row (place + 1) (_ ++ []) [_] := .word hword rfl (by simp [Word.EndsBefore]) .nil
  rw [List.append_nil, Word.raw, if_pos rfl, List.nil_append, String.toList_ofList] at hrow
  exact .blank (by decide) hrow

theorem row_helper {name : List Char} (hname : Word.IsName name) (place : Nat) :
    Word.Row place (name ++ ' ' :: betweenQuotes content)
      [⟨none, String.ofList name, false, place⟩,
        ⟨none, String.ofList content, true, place + byteSize name + 1⟩] :=
  .bare hname (row_betweenQuotes hcontent (place + byteSize name))

/-! ### The tags -/

theorem clear_betweenQuotes : Clear ['}', '}'] ['}', '}'] (' ' :: betweenQuotes content) :=
  .plain (by decide) (by simp) (.quoted hcontent .nil)

theorem stands_inclusion : (Segment.tag .inclusion (' ' :: betweenQuotes content)).Stands :=
  ⟨nofun, clear_betweenQuotes hcontent⟩

theorem inclusionOfBody_betweenQuotes (place : Nat) :
    Node.inclusionOfBody place (' ' :: betweenQuotes content) = .ok (.inclusion (String.ofList content) none) :=
  Node.inclusionOfBody_eq_ok_iff.2 ⟨_, rfl, .inl ⟨row_betweenQuotes hcontent place, rfl⟩⟩

theorem derivation_inclusion :
    Derivation 0 [.tag .inclusion (' ' :: betweenQuotes content)] [.inclusion (String.ofList content) none] :=
  .single (.inclusion (inclusionOfBody_betweenQuotes hcontent _)) (.nil _)

section

variable {name : List Char} (hname : HelperName name)

include hname

theorem stands_helper : (Segment.tag .escaped (name ++ ' ' :: betweenQuotes content)).Stands := by
  refine ⟨fun _ char hchar => ?_, ?_⟩
  · obtain ⟨first, rest, rfl⟩ := List.exists_cons_of_ne_nil hname.word.1
    exact hname.unmarked char hchar
  · have hquote : '"' ∉ name := fun hmem => absurd (hname.word.2 _ hmem) (by decide)
    have hclear := clear_of_not_infix (by decide) hquote hname.unclosed
    exact .append (hclear.before (by decide) _) (clear_betweenQuotes hcontent)

theorem ofBody_helper (place : Nat) :
    Call.ofBody place (name ++ ' ' :: betweenQuotes content) =
      .ok ⟨.path ⟨String.ofList name, 0, false, [String.ofList name]⟩,
        [.literal (.string (String.ofList (unquote content)))], [],
        ⟨place, place + byteSize (name ++ ' ' :: betweenQuotes content)⟩⟩ := by
  have hvalue : Expr.ofWord ⟨none, String.ofList content, true, place + byteSize name + 1⟩ =
      .ok (.literal (.string (String.ofList (unquote content)))) := by
    rw [Expr.ofWord, if_pos rfl, String.toList_ofList]
  refine Call.ofBody_eq_ok_iff.2 ⟨_, _, _, row_helper hcontent hname.word place, rfl, hname.ofWord place, ?_, rfl⟩
  rw [List.foldlM_cons, Call.addWord_eq_ok_iff.2 ⟨_, hvalue, .inr ⟨rfl, rfl, rfl⟩⟩]
  rfl

theorem trim_helper : trim (name ++ ' ' :: betweenQuotes content) ≠ ['e', 'l', 's', 'e'] := by
  intro htrim
  obtain ⟨found, hrow⟩ := Word.row_of_trim_else htrim 0
  have hwords := hrow.unique (row_helper hcontent hname.word 0)
  simp at hwords

theorem derivation_helper :
    ∃ span, Derivation 0 [.tag .escaped (name ++ ' ' :: betweenQuotes content)]
      [.mustache ⟨.path ⟨String.ofList name, 0, false, [String.ofList name]⟩,
        [.literal (.string (String.ofList (unquote content)))], [], span⟩ true] :=
  ⟨_, .single (.escaped (trim_helper hcontent hname) (ofBody_helper hcontent hname _)) (.nil _)⟩

end

end Stencil
