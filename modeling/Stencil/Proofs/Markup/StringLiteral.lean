import Stencil.Proofs.Markup.Backslashes
import Stencil.Proofs.Markup.QuotedWord
import Stencil.Proofs.Markup.RoundTrip

/-!
# What string literals denote

A string is written between quotes with a backslash in front of each quote in it. The tag ends
behind the string, wherever braces stand inside it, and the string is read back from what is
written. That takes an even number of backslashes in front of each quote of the string and at its
end: with an odd number the last of them guards the backslash that is put there, or the closing
quote.
-/

namespace Stencil

def stringBody (text : List Char) : List Char :=
  'h' :: ' ' :: '"' :: (enquote text ++ ['"'])

section

variable {text : List Char} (h : IsQuotable (enquote text))

include h

theorem stands_stringBody : (Segment.tag .escaped (stringBody text)).Stands :=
  stands_helper h helperName_h

theorem segments_stringBody :
    ∃ span, Draft.segments 0 {} [.tag .escaped (stringBody text)] =
      .ok ⟨[.mustache ⟨.path ⟨"h", 0, false, ["h"]⟩, [.literal (.string (String.ofList text))], [], span⟩ true],
        []⟩ := by
  obtain ⟨span, hderivation⟩ := derivation_helper h helperName_h
  rw [unquote_enquote] at hderivation
  exact ⟨span, Draft.segments_eq_ok_iff_derivation.2 hderivation⟩

end

/-- **What string literals denote.** Write a string between quotes, with a backslash in front of
each quote in it, as the only parameter of a tag. The template reads as this tag with this string
exactly if an even number of backslashes stands in front of each quote of the string and at its
end. -/
theorem parse_string_iff (text : String) :
    (∃ span,
      parse ("\x7b\x7bh \"" ++ String.ofList (enquote text.toList) ++ "\"\x7d\x7d") =
        .ok [.mustache ⟨.path ⟨"h", 0, false, ["h"]⟩, [.literal (.string text)], [], span⟩ true]) ↔
      SlashRuns Even [] text.toList := by
  have hsource : ("\x7b\x7bh \"" ++ String.ofList (enquote text.toList) ++ "\"\x7d\x7d").toList =
      ([.tag .escaped (stringBody text.toList)] : List Segment).flatMap Segment.raw := by
    simp [Segment.raw, stringBody, TagKind.opener, TagKind.marker, TagKind.closer]
  rw [← isQuotable_enquote_iff]
  constructor
  · rintro ⟨span, hparse⟩
    have hprintable := allPrintable_of_parseText (parse_eq_ok_iff.1 hparse)
    rw [Node.allPrintable, Node.Printable] at hprintable
    have hparam := hprintable.1.1.params _ (List.mem_singleton.2 rfl)
    simpa [Expr.toWord] using hparam.wellFormed.quoted rfl
  · intro h
    obtain ⟨span, hread⟩ := segments_stringBody h
    have hrow := segmented_of_stands (List.forall_mem_singleton.2 (stands_stringBody h)) (.singleton _)
    rw [← hsource] at hrow
    rw [String.ofList_toList] at hread
    exact ⟨span, parse_eq_ok_iff.2 (parseText_eq_ok_iff.2 ⟨_, hrow, hread⟩)⟩

end Stencil
