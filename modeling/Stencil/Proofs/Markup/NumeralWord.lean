import Stencil.Proofs.Markup.QuotedWord
import Stencil.Proofs.Number.Numerals
import Stencil.Proofs.Render.Inversion

/-!
# Numerals in tags

A numeral is a bare word in which nothing can be taken for the end of a tag. As the only word of a
tag it makes the tag of a literal, and as the second word it is the parameter of the first.
-/

namespace Stencil

theorem Clear.of_notMem {marker tail text : List Char} {first : Char} (hmarker : marker.head? = some first)
    (hfirst : first ∉ text) (hquote : '"' ∉ text) : Clear marker tail text := by
  obtain ⟨others, rfl⟩ := List.head?_eq_some_iff.1 hmarker
  induction text with
  | nil => exact .nil
  | cons char rest ih =>
    rw [List.mem_cons, not_or] at hfirst hquote
    refine .plain (Ne.symm hquote.1) (fun hstarts => ?_) (ih hfirst.2 hquote.2)
    exact hfirst.1 (List.cons_prefix_cons.1 hstarts).1

namespace Numeral

variable (numeral : Numeral)

/-! ### Words -/

theorem mem_text {char : Char} (h : char ∈ numeral.text) :
    char = '-' ∨ char = '.' ∨ char.isDigit = true := by
  rw [text, List.mem_append, List.mem_append, signText, fractionText] at h
  rcases h with hsign | hwhole | hfraction
  · split at hsign
    · exact .inl (List.mem_singleton.1 hsign)
    · cases hsign
  · exact .inr (.inr (numeral.isDigits_whole.2 char hwhole))
  · cases hdigits : numeral.fraction with
    | none => rw [hdigits] at hfraction; cases hfraction
    | some digits =>
      rw [hdigits] at hfraction
      rcases List.mem_cons.1 hfraction with rfl | hfraction
      · exact .inr (.inl rfl)
      · exact .inr (.inr ((numeral.isDigits_fraction digits hdigits).2 char hfraction))

theorem notMem_text {char : Char} (hsign : char ≠ '-') (hpoint : char ≠ '.') (hdigit : char.isDigit = false) :
    char ∉ numeral.text := by
  intro hmem
  rcases numeral.mem_text hmem with h | h | h
  · exact hsign h
  · exact hpoint h
  · exact Bool.false_ne_true (hdigit.symm.trans h)

theorem isPlain_of_isDigit {char : Char} (h : char.isDigit = true) : Word.isPlain char = true := by
  have hdigits : ∀ digit < 10, Word.isPlain digit.digitChar = true := by decide
  obtain ⟨digit, hdigit, rfl⟩ := exists_digitChar h
  exact hdigits digit hdigit

theorem isName_text : Word.IsName numeral.text := by
  constructor
  · rw [text]
    exact List.append_ne_nil_of_right_ne_nil _ (List.append_ne_nil_of_left_ne_nil numeral.isDigits_whole.1 _)
  · intro char hchar
    rcases numeral.mem_text hchar with rfl | rfl | hdigit
    · decide
    · decide
    · exact isPlain_of_isDigit hdigit

def word (place : Nat) : Word :=
  ⟨none, String.ofList numeral.text, false, place⟩

theorem wellFormed_word (place : Nat) : (numeral.word place).WellFormed :=
  Word.wellFormed_bare (by rw [String.toList_ofList]; exact numeral.isName_text) place

theorem raw_word (place : Nat) : (numeral.word place).raw = numeral.text := by
  rw [word, Word.raw_bare, String.toList_ofList]

theorem ofWord (place : Nat) :
    Expr.ofWord (numeral.word place) = .ok (.literal (.number (String.ofList numeral.text))) := by
  have hletter : 't' ∉ numeral.text ∧ 'f' ∉ numeral.text :=
    ⟨numeral.notMem_text (by decide) (by decide) (by decide),
      numeral.notMem_text (by decide) (by decide) (by decide)⟩
  have htrue : String.ofList numeral.text ≠ "true" := by
    intro heq
    have htext := congrArg String.toList heq
    rw [String.toList_ofList] at htext
    exact hletter.1 (htext ▸ List.mem_cons_self)
  have hfalse : String.ofList numeral.text ≠ "false" := by
    intro heq
    have htext := congrArg String.toList heq
    rw [String.toList_ofList] at htext
    exact hletter.2 (htext ▸ List.mem_cons_self)
  simp only [Expr.ofWord, word, htrue, hfalse, String.toList_ofList, numeral.isNumeral_text, if_true, if_false,
    Bool.false_eq_true]

theorem clear_text (kind : TagKind) : Clear kind.closer kind.closer numeral.text :=
  .of_notMem kind.closer_head (numeral.notMem_text (by decide) (by decide) (by decide))
    (numeral.notMem_text (by decide) (by decide) (by decide))

/-! ### The tag of a numeral -/

theorem row_text (place : Nat) : Word.Row place numeral.text [numeral.word place] := by
  have hrow : Word.Row place ((numeral.word place).raw ++ []) [numeral.word place] :=
    .word (numeral.wellFormed_word place) rfl (by simp [Word.EndsBefore]) .nil
  rwa [numeral.raw_word, List.append_nil] at hrow

def call (place : Nat) : Call :=
  ⟨.literal (.number (String.ofList numeral.text)), [], [], ⟨place, place + byteSize numeral.text⟩⟩

theorem ofBody_text (place : Nat) : Call.ofBody place numeral.text = .ok (numeral.call place) :=
  Call.ofBody_eq_ok_iff.2 ⟨_, _, _, numeral.row_text place, rfl, numeral.ofWord place, rfl, rfl⟩

theorem stands_text (kind : TagKind) : (Segment.tag kind numeral.text).Stands := by
  refine ⟨fun _ char hhead => ?_, numeral.clear_text kind⟩
  have hmarkers : ∀ digit < 10, digit.digitChar ∉ ['!', '{', '&', '#', '^', '/', '>'] := by decide
  rcases numeral.mem_text (List.mem_of_mem_head? hhead) with rfl | rfl | hchar
  · decide
  · decide
  · obtain ⟨digit, hdigit, rfl⟩ := exists_digitChar hchar
    exact hmarkers digit hdigit

theorem trim_text : trim numeral.text ≠ ['e', 'l', 's', 'e'] := by
  rw [(numeral.row_text 0).trim_eq, String.toList_ofList]
  intro htext
  exact numeral.notMem_text (by decide) (by decide) (by decide) (htext ▸ List.mem_cons_self)

/-- A numeral between braces is the tag of a literal, escaped between two and as it is between
three. -/
theorem parse_tag {kind : TagKind} (hkind : kind = .escaped ∨ kind = .unescaped) :
    ∃ place, parse (String.ofList (Segment.tag kind numeral.text).raw) =
      .ok [.mustache (numeral.call place) (kind = .escaped)] := by
  have hrow := Segmented.cons_tag (numeral.stands_text kind) .nil
  rw [List.append_nil] at hrow
  rcases hkind with rfl | rfl
  · exact ⟨_, parse_of_derivation hrow (.single (.escaped numeral.trim_text (numeral.ofBody_text _)) (.nil _))⟩
  · exact ⟨_, parse_of_derivation hrow (.single (.unescaped (.inl rfl) (numeral.ofBody_text _)) (.nil _))⟩

/-! ### A numeral as a parameter -/

section

variable {name : List Char} (hname : HelperName name)

include hname

theorem row_param (place : Nat) :
    Word.Row place (name ++ ' ' :: numeral.text)
      [⟨none, String.ofList name, false, place⟩, numeral.word (place + byteSize name + 1)] :=
  .bare hname.word (.blank (by decide) (numeral.row_text (place + byteSize name + 1)))

theorem ofBody_param (place : Nat) :
    Call.ofBody place (name ++ ' ' :: numeral.text) =
      .ok ⟨.path ⟨String.ofList name, 0, false, [String.ofList name]⟩,
        [.literal (.number (String.ofList numeral.text))], [],
        ⟨place, place + byteSize (name ++ ' ' :: numeral.text)⟩⟩ := by
  refine Call.ofBody_eq_ok_iff.2 ⟨_, _, _, numeral.row_param hname place, rfl, hname.ofWord place, ?_, rfl⟩
  rw [List.foldlM_cons, Call.addWord_eq_ok_iff.2 ⟨_, numeral.ofWord _, .inr ⟨rfl, rfl, rfl⟩⟩]
  rfl

theorem stands_param : (Segment.tag .block (name ++ ' ' :: numeral.text)).Stands := by
  have hquote : '"' ∉ name := fun hmem => absurd (hname.word.2 _ hmem) (by decide)
  have hclear := clear_of_not_infix (by decide) hquote hname.unclosed
  refine ⟨nofun, .append (hclear.before (by decide) _) (.plain (by decide) ?_ (numeral.clear_text .block))⟩
  intro hstarts
  exact absurd (List.cons_prefix_cons.1 hstarts).1 (by decide)

theorem parse_block (hbrace : '}' ∉ name) {first second : String} {program inverse : List Node}
    (hfirst : parse first = .ok program) (hsecond : parse second = .ok inverse)
    (hfirstBrace : first.toList.getLast? ≠ some '{') (hsecondBrace : second.toList.getLast? ≠ some '{') :
    ∃ nodes span,
      parse ("\x7b\x7b#" ++ String.ofList name ++ " " ++ String.ofList numeral.text ++ "\x7d\x7d" ++ first ++
        "\x7b\x7belse\x7d\x7d" ++ second ++ "\x7b\x7b/" ++ String.ofList name ++ "\x7d\x7d") = .ok nodes ∧
      Node.allUnplaced nodes = Node.allUnplaced [.block
        ⟨.path ⟨String.ofList name, 0, false, [String.ofList name]⟩,
          [.literal (.number (String.ofList numeral.text))], [], span⟩ program (some inverse)] := by
  have hquote : '"' ∉ name := fun hmem => absurd (hname.word.2 _ hmem) (by decide)
  have hclosing : (Segment.tag .endBlock name).Stands := ⟨nofun, .of_notMem rfl hbrace hquote⟩
  have hcloses : (Segment.tag .endBlock name).Closes (String.ofList name) := by
    have htrim : trim ([] ++ (name ++ [])) = name :=
      Word.trim_eq_of_ends (by simp) (by simp) hname.word.1 hname.word.notBlank
    rw [List.nil_append, List.append_nil] at htrim
    have hcloses := Segment.Closes.tag name
    rwa [htrim] at hcloses
  obtain ⟨nodes, hnodes, hsame⟩ := parse_dividedBlock_of_tags (numeral.stands_param hname)
    (.plain (numeral.ofBody_param hname _) rfl) hclosing hcloses hfirst hsecond hfirstBrace hsecondBrace
    (List.mem_cons_of_mem _ List.mem_cons_self)
  refine ⟨nodes, _, ?_, hsame⟩
  rw [← hnodes]
  apply congrArg parse
  apply String.toList_inj.1
  simp [Segment.raw, TagKind.opener, TagKind.marker, TagKind.closer]

end

end Numeral

end Stencil
