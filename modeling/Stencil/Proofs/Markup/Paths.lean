import Stencil.Proofs.Markup.Reading
import Stencil.Proofs.Pieces

/-!
# How paths are written

A path is written as steps to the parents, perhaps with a mark of the current context or with
segments behind them, or both. The segments have a slash or a dot between each two of them, and it
does not matter which. A text is read as a path exactly if it is written like this, and what is read
are the steps, the mark and the segments. So each path has a normal form, with slashes only, which
is read as the same path.
-/

namespace Stencil

namespace Path

/-! ### The grammar -/

/-- The steps to a number of parents, each with its slash. -/
def parents (depth : Nat) : List Char :=
  (List.replicate depth ['.', '.', '/']).flatten

/-- The marks of the current context that segments can follow. -/
def openMarks : List (List Char) :=
  [['.', '/'], ['t', 'h', 'i', 's', '/'], ['t', 'h', 'i', 's', '.']]

/-- The marks of the current context that end a path. -/
def marks : List (List Char) :=
  ['.'] :: ['t', 'h', 'i', 's'] :: openMarks

/-- The text names segments, with a slash or a dot between each two of them. None is empty, and none
is a mark of the current context. -/
structure Names (text : List Char) (segments : List (List Char)) : Prop where
  joined : Joined isSeparator text segments
  proper : ∀ segment ∈ segments, segment ≠ [] ∧ segment ≠ ['t', 'h', 'i', 's']

/-- How a path is written that has a number of steps to the parents, perhaps a mark of the current
context, and some segments. -/
inductive Spelled : List Char → Nat → Bool → List (List Char) → Prop where
  | steps (depth : Nat) : Spelled (parents (depth + 1)) (depth + 1) false []
  | lastStep (depth : Nat) : Spelled (parents depth ++ ['.', '.']) (depth + 1) false []
  | mark (depth : Nat) {mark : List Char} : mark ∈ marks → Spelled (parents depth ++ mark) depth true []
  | names (depth : Nat) {text : List Char} {segments : List (List Char)} :
    Names text segments → Spelled (parents depth ++ text) depth false segments
  | markedNames (depth : Nat) {mark text : List Char} {segments : List (List Char)} :
    mark ∈ openMarks → Names text segments → Spelled (parents depth ++ (mark ++ text)) depth true segments

/-! ### Steps to the parents -/

@[simp] theorem parents_zero : parents 0 = [] := rfl

@[simp] theorem parents_succ (depth : Nat) : parents (depth + 1) = '.' :: '.' :: '/' :: parents depth := rfl

theorem splitParents_parents (depth : Nat) (rest : List Char) :
    splitParents (parents depth ++ rest) = (depth + (splitParents rest).1, (splitParents rest).2) := by
  induction depth with
  | zero => simp
  | succ depth ih =>
    rw [parents_succ, List.cons_append, List.cons_append, List.cons_append, splitParents, ih]
    simp only [Prod.mk.injEq, and_true]
    omega

/-- The steps are taken off a text, as many as there are. -/
theorem splitParents_cases (text : List Char) :
    (∃ depth rest, text = parents depth ++ rest ∧ splitParents text = (depth, rest)) ∨
      ∃ depth, text = parents depth ++ ['.', '.'] ∧ splitParents text = (depth + 1, []) := by
  fun_induction splitParents text with
  | case1 rest ih =>
    rcases ih with ⟨depth, found, rfl, hfound⟩ | ⟨depth, rfl, hfound⟩
    · exact .inl ⟨depth + 1, found, rfl, by rw [hfound]⟩
    · exact .inr ⟨depth + 1, rfl, by rw [hfound]⟩
  | case2 => exact .inr ⟨0, rfl, rfl⟩
  | case3 rest => exact .inl ⟨0, rest, rfl, rfl⟩

/-! ### Marks of the current context -/

theorem splitThis_cases (text : List Char) :
    splitThis text = (false, text) ∨
      (text = ['.'] ∨ text = ['t', 'h', 'i', 's']) ∧ splitThis text = (true, []) ∨
      ∃ mark ∈ openMarks, ∃ rest, text = mark ++ rest ∧ splitThis text = (true, rest) := by
  fun_cases splitThis text with
  | case1 => exact .inr (.inl ⟨.inl rfl, rfl⟩)
  | case2 => exact .inr (.inl ⟨.inr rfl, rfl⟩)
  | case3 rest => exact .inr (.inr ⟨['.', '/'], by decide, rest, rfl, rfl⟩)
  | case4 rest => exact .inr (.inr ⟨['t', 'h', 'i', 's', '/'], by decide, rest, rfl, rfl⟩)
  | case5 rest => exact .inr (.inr ⟨['t', 'h', 'i', 's', '.'], by decide, rest, rfl, rfl⟩)
  | case6 => exact .inl rfl

theorem splitThis_openMark {mark : List Char} (h : mark ∈ openMarks) (rest : List Char) :
    splitParents (mark ++ rest) = (0, mark ++ rest) ∧ splitThis (mark ++ rest) = (true, rest) := by
  simp only [openMarks, List.mem_cons, List.not_mem_nil, or_false] at h
  rcases h with rfl | rfl | rfl
  · exact ⟨rfl, rfl⟩
  · exact ⟨rfl, rfl⟩
  · exact ⟨rfl, rfl⟩

theorem splitThis_mark {mark : List Char} (h : mark ∈ marks) :
    splitParents mark = (0, mark) ∧ splitThis mark = (true, []) := by
  rw [marks, List.mem_cons, List.mem_cons] at h
  rcases h with rfl | rfl | h
  · exact ⟨rfl, rfl⟩
  · exact ⟨rfl, rfl⟩
  · simpa using splitThis_openMark h []

/-! ### Segments -/

namespace Names

variable {text : List Char} {segments : List (List Char)}

theorem ne_nil (h : Names text segments) : text ≠ [] := by
  rintro rfl
  have hpieces := h.joined.pieces_eq
  rw [pieces] at hpieces
  exact (h.proper [] (by simp [← hpieces])).1 rfl

theorem split_eq (h : Names text segments) :
    splitParents text = (0, text) ∧ splitThis text = (false, text) := by
  have hpieces := h.joined.pieces_eq
  have hproper := h.proper
  rw [← hpieces] at hproper
  constructor
  · rcases splitParents_cases text with ⟨depth, rest, rfl, heq⟩ | ⟨depth, rfl, heq⟩
    · cases depth with
      | zero => exact heq
      | succ depth => simp [pieces, isSeparator] at hproper
    · cases depth with
      | zero => simp [pieces, isSeparator] at hproper
      | succ depth => simp [pieces, isSeparator] at hproper
  · rcases splitThis_cases text with heq | ⟨rfl | rfl, -⟩ | ⟨mark, hmark, rest, rfl, -⟩
    · exact heq
    · simp [pieces, isSeparator] at hproper
    · simp [pieces, isSeparator] at hproper
    · simp only [openMarks, List.mem_cons, List.not_mem_nil, or_false] at hmark
      rcases hmark with rfl | rfl | rfl
      · simp [pieces, isSeparator] at hproper
      · simp [pieces, isSeparator] at hproper
      · simp [pieces, isSeparator] at hproper

theorem splitParents_eq (h : Names text segments) (depth : Nat) :
    splitParents (parents depth ++ text) = (depth, text) := by
  rw [splitParents_parents, h.split_eq.1, Nat.add_zero]

end Names

theorem names_pieces {text : List Char}
    (h : [] ∉ pieces isSeparator text ∧ ['t', 'h', 'i', 's'] ∉ pieces isSeparator text) :
    Names text (pieces isSeparator text) := by
  refine ⟨.of_pieces text, fun segment hsegment => ⟨?_, ?_⟩⟩
  · rintro rfl
    exact h.1 hsegment
  · rintro rfl
    exact h.2 hsegment

/-! ### Reading -/

theorem Spelled.ofText {text : List Char} {depth : Nat} {isThis : Bool} {segments : List (List Char)}
    (h : Spelled text depth isThis segments) :
    ofText? text = some ⟨String.ofList text, depth, isThis, segments.map String.ofList⟩ := by
  have hnames : ∀ {rest : List Char}, Names rest segments →
      (if rest = [] then [] else pieces isSeparator rest) = segments ∧
        ¬([] ∈ segments ∨ ['t', 'h', 'i', 's'] ∈ segments) ∧ segments ≠ [] := by
    intro rest hrest
    rw [if_neg hrest.ne_nil, hrest.joined.pieces_eq]
    refine ⟨rfl, ?_, hrest.joined.ne_nil⟩
    rintro (hmem | hmem)
    · exact (hrest.proper _ hmem).1 rfl
    · exact (hrest.proper _ hmem).2 rfl
  cases h with
  | steps depth =>
    have hsplit : splitParents (parents (depth + 1)) = (depth + 1, []) := by
      simpa [splitParents] using splitParents_parents (depth + 1) []
    simp [-parents_succ, ofText?, hsplit, splitThis]
  | lastStep depth => simp [ofText?, splitParents_parents, splitParents, splitThis]
  | mark depth hmark => simp [ofText?, splitParents_parents, splitThis_mark hmark]
  | names depth hrest =>
    obtain ⟨hpieces, hproper, hne⟩ := hnames hrest
    simp [ofText?, hrest.splitParents_eq, hrest.split_eq.2, hpieces, if_neg hproper, hne]
  | markedNames depth hmark hrest =>
    obtain ⟨hpieces, hproper, -⟩ := hnames hrest
    simp [ofText?, splitParents_parents, splitThis_openMark hmark, hpieces, if_neg hproper]

theorem spelled_of_ofText {text : List Char} {path : Path} (h : ofText? text = some path) :
    ∃ segments, Spelled text path.depth path.isThis segments ∧ path.segments = segments.map String.ofList := by
  simp only [ofText?, Option.ite_none_left_eq_some, Option.some.injEq] at h
  obtain ⟨hproper, hsomewhere, rfl⟩ := h
  refine ⟨_, ?_, rfl⟩
  rw [not_or] at hproper
  rcases splitParents_cases text with ⟨depth, rest, rfl, hparents⟩ | ⟨depth, rfl, hparents⟩
  · simp only [hparents] at hproper hsomewhere ⊢
    rcases splitThis_cases rest with hthis | ⟨hmark, hthis⟩ | ⟨mark, hmark, behind, rfl, hthis⟩
    · simp only [hthis] at hproper hsomewhere ⊢
      by_cases hrest : rest = []
      · subst hrest
        obtain ⟨depth, rfl⟩ : ∃ found, depth = found + 1 :=
          Nat.exists_eq_succ_of_ne_zero (by simpa using hsomewhere)
        rw [if_pos rfl, List.append_nil]
        exact .steps depth
      · rw [if_neg hrest] at hproper ⊢
        exact .names depth (names_pieces hproper)
    · simp only [hthis, if_true]
      exact .mark depth (by rcases hmark with rfl | rfl <;> decide)
    · simp only [hthis] at hproper ⊢
      by_cases hbehind : behind = []
      · rw [if_pos hbehind, hbehind, List.append_nil]
        exact .mark depth (by simp [marks, hmark])
      · rw [if_neg hbehind] at hproper ⊢
        exact .markedNames depth hmark (names_pieces hproper)
  · simp only [hparents, splitThis, if_true]
    exact .lastStep depth

theorem ofText_eq_some_iff {text : List Char} {path : Path} :
    ofText? text = some path ↔ path.text = String.ofList text ∧
      ∃ segments, Spelled text path.depth path.isThis segments ∧ path.segments = segments.map String.ofList := by
  constructor
  · intro h
    exact ⟨text_of_ofText h, spelled_of_ofText h⟩
  · rintro ⟨htext, segments, hspelled, hsegments⟩
    rw [hspelled.ofText, ← htext, ← hsegments]

/-! ### Other spellings of a path -/

/-- The separators between the segments can be any. -/
theorem Spelled.respelled {front tail other : List Char} {depth : Nat} {isThis : Bool}
    {segments : List (List Char)} (h : Spelled (front ++ tail) depth isThis segments)
    (htail : Joined isSeparator tail segments) (hother : Joined isSeparator other segments) :
    Spelled (front ++ other) depth isThis segments := by
  have hlength : ∀ {rest : List Char}, Names rest segments → tail.length = rest.length := by
    intro rest hrest
    have htail := htail.length_eq
    have hrest := hrest.joined.length_eq
    omega
  generalize htext : front ++ tail = text at h
  cases h with
  | steps => exact absurd rfl htail.ne_nil
  | lastStep => exact absurd rfl htail.ne_nil
  | mark => exact absurd rfl htail.ne_nil
  | names depth hrest =>
    obtain ⟨rfl, rfl⟩ := List.append_inj' htext (hlength hrest)
    exact .names depth ⟨hother, hrest.proper⟩
  | markedNames depth hmark hrest =>
    rw [← List.append_assoc] at htext
    obtain ⟨rfl, rfl⟩ := List.append_inj' htext (hlength hrest)
    rw [List.append_assoc]
    exact .markedNames depth hmark ⟨hother, hrest.proper⟩

/-- The spelling with slashes only, and with the long mark of the current context. -/
def spelling (depth : Nat) (isThis : Bool) (segments : List (List Char)) : List Char :=
  parents depth ++
    ((if isThis then if segments = [] then ['t', 'h', 'i', 's'] else ['t', 'h', 'i', 's', '/'] else []) ++
      ['/'].intercalate segments)

def normalForm (path : Path) : List Char :=
  spelling path.depth path.isThis (path.segments.map String.toList)

theorem Names.normal {text : List Char} {segments : List (List Char)} (h : Names text segments) :
    Names (['/'].intercalate segments) segments :=
  ⟨.intercalate rfl h.joined.ne_nil h.joined.not_separates, h.proper⟩

theorem Spelled.normal {text : List Char} {depth : Nat} {isThis : Bool} {segments : List (List Char)}
    (h : Spelled text depth isThis segments) :
    Spelled (spelling depth isThis segments) depth isThis segments := by
  cases h with
  | steps depth => simpa [spelling] using Spelled.steps depth
  | lastStep depth => simpa [spelling] using Spelled.steps depth
  | mark depth =>
    have hmark : ['t', 'h', 'i', 's'] ∈ marks := by decide
    simpa [spelling] using Spelled.mark depth hmark
  | names depth hrest => simpa [spelling] using Spelled.names depth hrest.normal
  | markedNames depth _ hrest =>
    rw [spelling, if_pos rfl, if_neg hrest.joined.ne_nil]
    exact .markedNames depth (by decide) hrest.normal

/-! ### Words -/

theorem plain_of_numeric {text : List Char} (h : ∀ char ∈ text, char = '-' ∨ char.isDigit = true) :
    text ≠ ['t', 'h', 'i', 's'] ∧ ∀ char ∈ text, isSeparator char = false := by
  constructor
  · rintro rfl
    exact absurd (h 't' (by simp)) (by decide)
  · intro char hchar
    rcases h char hchar with rfl | hdigit
    · rfl
    · rw [isSeparator, Bool.or_eq_false_iff, beq_eq_false_iff_ne, beq_eq_false_iff_ne]
      constructor
      · rintro rfl
        exact absurd hdigit (by decide)
      · rintro rfl
        exact absurd hdigit (by decide)

theorem isNumeral_cases {text : List Char} (h : isNumeral text = true) :
    ∃ sign whole behind, text = sign ++ whole ++ behind ∧ whole ≠ [] ∧
      (∀ char ∈ sign ++ whole, char = '-' ∨ char.isDigit = true) ∧
      (behind = [] ∨ ∃ fraction, behind = '.' :: fraction ∧ fraction ≠ [] ∧
        ∀ char ∈ fraction, char.isDigit = true) := by
  have hsigned : ∃ sign digits, text = sign ++ digits ∧ (∀ char ∈ sign, char = '-') ∧
      isNumeral ('-' :: digits) = true := by
    by_cases hminus : ∃ digits, text = '-' :: digits
    · obtain ⟨digits, rfl⟩ := hminus
      exact ⟨['-'], digits, rfl, by simp, h⟩
    · rw [not_exists] at hminus
      refine ⟨[], text, rfl, by simp, ?_⟩
      simpa only [isNumeral] using h
  obtain ⟨sign, digits, rfl, hsign, h⟩ := hsigned
  simp only [isNumeral, Bool.and_eq_true, Bool.not_eq_true', List.isEmpty_eq_false_iff] at h
  obtain ⟨hne, h⟩ := h
  refine ⟨sign, digits.takeWhile Char.isDigit, digits.dropWhile Char.isDigit, ?_, hne, ?_, ?_⟩
  · rw [List.append_assoc, List.takeWhile_append_dropWhile]
  · intro char hchar
    rcases List.mem_append.1 hchar with hchar | hchar
    · exact .inl (hsign char hchar)
    · exact .inr (List.mem_takeWhile_imp hchar)
  · split at h
    · next heq => exact .inl heq
    · next fraction heq =>
      simp only [Bool.and_eq_true, Bool.not_eq_true', List.isEmpty_eq_false_iff, List.all_eq_true] at h
      exact .inr ⟨fraction, heq, h⟩
    · cases h

/-- A numeral has the form of a path as well, of one or two segments. -/
theorem spelled_of_isNumeral {text : List Char} (h : isNumeral text = true) :
    ∃ segments, Spelled text 0 false segments := by
  obtain ⟨sign, whole, behind, rfl, hne, hnumeric, hbehind⟩ := isNumeral_cases h
  obtain ⟨hthis, hplain⟩ := plain_of_numeric hnumeric
  have hne : sign ++ whole ≠ [] := by simp [hne]
  rcases hbehind with rfl | ⟨fraction, rfl, hfraction, hdigits⟩
  · rw [List.append_nil]
    exact ⟨_, .names 0 ⟨.single hplain, by simp [hne, hthis]⟩⟩
  · obtain ⟨hfractionThis, hfractionPlain⟩ := plain_of_numeric fun char hchar => .inr (hdigits char hchar)
    refine ⟨_, .names 0 ⟨.cons hplain rfl (.single hfractionPlain), ?_⟩⟩
    simp [hne, hthis, hfraction, hfractionThis]

theorem ofWord_eq_error_iff {word : Word} (hquoted : word.quoted = false) :
    Expr.ofWord word = .error ⟨.invalidPath word.value, word.place⟩ ↔
      ¬∃ depth isThis segments, Spelled word.value.toList depth isThis segments := by
  constructor
  · rintro h ⟨depth, isThis, segments, hspelled⟩
    simp only [Expr.ofWord, hquoted, hspelled.ofText] at h
    split_ifs at h
  · intro h
    have hword : ∀ name : String, Names name.toList [name.toList] → word.value ≠ name := by
      rintro _ hname rfl
      exact h ⟨0, false, _, .names 0 hname⟩
    have htrue := hword "true" ⟨.single (by simp [isSeparator]), by simp⟩
    have hfalse := hword "false" ⟨.single (by simp [isSeparator]), by simp⟩
    have hnumeral : ¬isNumeral word.value.toList = true :=
      fun hnumeral => h ⟨0, false, spelled_of_isNumeral hnumeral⟩
    have hnone : ofText? word.value.toList = none := by
      rw [Option.eq_none_iff_forall_ne_some]
      intro path hpath
      obtain ⟨segments, hspelled, -⟩ := spelled_of_ofText hpath
      exact h ⟨_, _, segments, hspelled⟩
    simp [Expr.ofWord, hquoted, htrue, hfalse, hnumeral, hnone]

/-- A text is read as a path exactly if it is written like one, and the word that it makes is an
invalid path otherwise. What is read does not depend on which separators stand between the segments,
and the normal form of a path is read as the same path. -/
theorem ofText_reads_spelled (text : List Char) :
    (∀ path, ofText? text = some path ↔ path.text = String.ofList text ∧
      ∃ segments, Spelled text path.depth path.isThis segments ∧ path.segments = segments.map String.ofList) ∧
    (∀ word : Word, word.quoted = false → word.value = String.ofList text →
      (Expr.ofWord word = .error ⟨.invalidPath (String.ofList text), word.place⟩ ↔
        ¬∃ depth isThis segments, Spelled text depth isThis segments)) ∧
    ∀ path, ofText? text = some path →
      (∀ front tail other segments, text = front ++ tail → path.segments = segments.map String.ofList →
        Joined isSeparator tail segments → Joined isSeparator other segments →
        ofText? (front ++ other) = some { path with text := String.ofList (front ++ other) }) ∧
      ofText? path.normalForm = some { path with text := String.ofList path.normalForm } := by
  refine ⟨fun path => ofText_eq_some_iff, fun word hquoted hvalue => ?_, fun path hpath => ?_⟩
  · have h := ofWord_eq_error_iff hquoted
    rwa [hvalue, String.toList_ofList] at h
  · obtain ⟨-, segments, hspelled, hsegments⟩ := ofText_eq_some_iff.1 hpath
    constructor
    · rintro front tail other found rfl hfound htail hother
      obtain rfl : segments = found :=
        List.map_injective_iff.2 (fun _ _ => String.ofList_injective) (hsegments.symm.trans hfound)
      exact ofText_eq_some_iff.2 ⟨rfl, segments, hspelled.respelled htail hother, hsegments⟩
    · have hnormal : path.normalForm = spelling path.depth path.isThis segments := by
        simp [normalForm, hsegments]
      rw [hnormal]
      exact ofText_eq_some_iff.2 ⟨rfl, segments, hspelled.normal, hsegments⟩

example : ofText? "../this.a/b".toList = some ⟨"../this.a/b", 1, true, ["a", "b"]⟩ := rfl

end Path

end Stencil
