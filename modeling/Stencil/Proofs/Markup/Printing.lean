import Mathlib.Data.List.Infix
import Stencil.Proofs.Markup.Placement
import Stencil.Proofs.Markup.Spacing
import Stencil.Proofs.Table

/-!
# The canonical form of a template

Nodes have a canonical form as segments, and its text reads as the same nodes. Content stands as it
is. The words of a tag stand between single blanks: paths and numbers as they are written, strings
between quotes, named arguments in the order of their names behind the others. Every comment has the
long form, and a block is never an inverted one.
-/

namespace Stencil

/-- The word that an expression is written as, perhaps behind a key. -/
def Expr.toWord (key : Option String) : Expr → Word
  | .literal (.string content) => ⟨key, String.ofList (enquote content.toList), true, 0⟩
  | .literal (.number text) => ⟨key, text, false, 0⟩
  | .literal (.boolean true) => ⟨key, "true", false, 0⟩
  | .literal (.boolean false) => ⟨key, "false", false, 0⟩
  | .path found => ⟨key, found.text, false, 0⟩

def Call.toWords (call : Call) : List Word :=
  call.head.toWord none ::
    (call.params.map (Expr.toWord none) ++ call.hash.map fun entry => entry.2.toWord (some entry.1))

/-- Whether the name of a partial can stand without quotes. -/
def isBareName (name : String) : Bool :=
  name ≠ "" && name.toList.all Word.isPlain && !decide (['}', '}'] <:+: name.toList)

/-- The name of a partial, between quotes unless it can stand without them. -/
def nameWord (name : String) : Word :=
  ⟨none, name, !isBareName name, 0⟩

mutual

def Node.toSegments : Node → List Segment
  | .content text => [.text text.toList]
  | .comment text => [.comment ('-' :: '-' :: (text.toList ++ ['-', '-']))]
  | .mustache call true => [.tag .escaped (Word.spaced call.toWords)]
  | .mustache call false => [.tag .unescaped (Word.spaced call.toWords)]
  | .block call program none =>
    .tag .block (Word.spaced call.toWords) ::
      (Node.allToSegments program ++ [.tag .endBlock (Word.spaced [call.head.toWord none])])
  | .block call program (some inverse) =>
    .tag .block (Word.spaced call.toWords) ::
      (Node.allToSegments program ++ .tag .inverse [] ::
        (Node.allToSegments inverse ++ [.tag .endBlock (Word.spaced [call.head.toWord none])]))
  | .inclusion name context =>
    [.tag .inclusion (Word.spaced (nameWord name :: (context.map (Expr.toWord none)).toList))]

def Node.allToSegments : List Node → List Segment
  | [] => []
  | node :: rest => node.toSegments ++ Node.allToSegments rest

end

def print (nodes : List Node) : String :=
  String.ofList ((Node.allToSegments nodes).flatMap Segment.raw)

/-! ### Expressions -/

/-- An expression that is written as a well-formed word, without the closing marker of the tag, and
is read from it. -/
structure Expr.Printable (closer : List Char) (key : Option String) (expr : Expr) : Prop where
  wellFormed : (expr.toWord key).WellFormed
  clear : Clear closer [' '] (expr.toWord key).raw
  read : Expr.ofWord (expr.toWord key) = .ok expr

theorem Expr.toWord_key (key : Option String) (expr : Expr) : (expr.toWord key).key = key := by
  rcases expr with (content | text | _ | _) | path <;> rfl

/-- What a well-formed word reads as is written as this word. -/
theorem Expr.toWord_of_ofWord {word : Word} {expr : Expr} (hword : word.WellFormed)
    (h : Expr.ofWord word = .ok expr) : expr.toWord word.key = word.unplaced := by
  obtain ⟨key, value, quoted, place⟩ := word
  simp only [Expr.ofWord] at h
  split_ifs at h with hquoted htrue hfalse hnumeral
  · obtain rfl := Except.ok.inj h
    rw [Expr.toWord, String.toList_ofList, enquote_unquote (hword.quoted hquoted), String.ofList_toList]
    exact congrArg (Word.mk key value · 0) hquoted.symm
  · obtain rfl := Except.ok.inj h
    rw [htrue, Bool.eq_false_iff.2 hquoted]
    rfl
  · obtain rfl := Except.ok.inj h
    rw [hfalse, Bool.eq_false_iff.2 hquoted]
    rfl
  · obtain rfl := Except.ok.inj h
    rw [Bool.eq_false_iff.2 hquoted]
    rfl
  · cases hfound : Path.ofText? value.toList with
    | none => simp [hfound] at h
    | some found =>
      rw [hfound] at h
      obtain rfl := Except.ok.inj h
      rw [Bool.eq_false_iff.2 hquoted, Expr.toWord, Path.text_of_ofText hfound, String.ofList_toList]
      rfl

theorem Expr.printable_of_ofWord {closer : List Char} {word : Word} {expr : Expr} (hword : word.WellFormed)
    (hclear : Clear closer [' '] word.raw) (h : Expr.ofWord word = .ok expr) :
    expr.Printable closer word.key := by
  have hsame := Expr.toWord_of_ofWord hword h
  refine ⟨?_, ?_, ?_⟩
  · rw [hsame]
    exact hword.moved 0
  · rw [hsame]
    exact hclear
  · rw [hsame]
    exact Expr.ofWord_unplaced.2 h

/-! ### Calls -/

/-- A call that reads as itself from its canonical words. -/
structure Call.Printable (closer : List Char) (call : Call) : Prop where
  head : call.head.Printable closer none
  params : ∀ param ∈ call.params, param.Printable closer none
  hash : ∀ entry ∈ call.hash, entry.2.Printable closer (some entry.1)
  sorted : call.hash.Sorted
  alone : (call.head.isLiteral && call.hasArguments) = false

theorem Expr.Printable.lengthen {closer longer : List Char} {key : Option String} {expr : Expr}
    (h : expr.Printable closer key) (hcloser : closer <+: longer) : expr.Printable longer key :=
  ⟨h.wellFormed, h.clear.lengthen hcloser, h.read⟩

theorem Call.Printable.lengthen {closer longer : List Char} {call : Call} (h : call.Printable closer)
    (hcloser : closer <+: longer) : call.Printable longer :=
  ⟨h.head.lengthen hcloser, fun param hparam => (h.params param hparam).lengthen hcloser,
    fun entry hentry => (h.hash entry hentry).lengthen hcloser, h.sorted, h.alone⟩

theorem TagKind.closer_notBlank (kind : TagKind) : ∀ char ∈ kind.closer, isBlank char = false := by
  have hall : (kind.closer.all fun char => !isBlank char) = true := by
    cases kind <;> rfl
  intro char hchar
  simpa using List.all_eq_true.1 hall char hchar

theorem Call.printable_of_ofBody {kind : TagKind} {place : Nat} {body : List Char} {call : Call}
    (hclear : Clear kind.closer kind.closer body) (h : Call.ofBody place body = .ok call) :
    call.Printable kind.closer := by
  obtain ⟨first, others, head, hrow, hkey, hhead, hcall, halone⟩ := Call.ofBody_eq_ok_iff.1 h
  have hwords : ∀ word ∈ first :: others, ∀ expr, Expr.ofWord word = .ok expr →
      expr.Printable kind.closer word.key := fun word hword _ hexpr =>
    Expr.printable_of_ofWord (hrow.wellFormed word hword) (hrow.clear kind.closer_notBlank hclear word hword)
      hexpr
  have hfirst := hwords first (by simp) head hhead
  rw [hkey] at hfirst
  have hall : call.head.Printable kind.closer none ∧
      (∀ param ∈ call.params, param.Printable kind.closer none) ∧
      (∀ entry ∈ call.hash, entry.2.Printable kind.closer (some entry.1)) ∧ call.hash.Sorted := by
    refine Call.foldlM_addWord_induction
      (motive := fun next => next.head.Printable kind.closer none ∧
        (∀ param ∈ next.params, param.Printable kind.closer none) ∧
        (∀ entry ∈ next.hash, entry.2.Printable kind.closer (some entry.1)) ∧ next.hash.Sorted)
      ?_ ?_ hcall
    swap
    · exact ⟨hfirst, by simp, by simp, List.Pairwise.nil⟩
    rintro before next word hword ⟨hbefore, hparams, hhash, hsorted⟩ hnext
    obtain ⟨value, hvalue, ⟨key, hwordKey, rfl⟩ | ⟨hwordKey, -, rfl⟩⟩ := Call.addWord_eq_ok_iff.1 hnext
    · have hprintable := hwords word (by simp [hword]) value hvalue
      rw [hwordKey] at hprintable
      refine ⟨hbefore, hparams, fun entry hentry => ?_, hsorted.insert key value⟩
      rcases Table.mem_of_mem_insert hentry with rfl | hentry
      · exact hprintable
      · exact hhash entry hentry
    · have hprintable := hwords word (by simp [hword]) value hvalue
      rw [hwordKey] at hprintable
      refine ⟨hbefore, fun param hparam => ?_, hhash, hsorted⟩
      rcases List.mem_append.1 hparam with hparam | hparam
      · exact hparams param hparam
      · rw [List.mem_singleton.1 hparam]
        exact hprintable
  exact ⟨hall.1, hall.2.1, hall.2.2.1, hall.2.2.2, halone⟩

theorem Call.Printable.forall_mem_toWords {closer : List Char} {call : Call} (h : call.Printable closer)
    {motive : Word → Prop} (hmotive : ∀ expr key, Expr.Printable closer key expr → motive (expr.toWord key)) :
    ∀ word ∈ call.toWords, motive word := by
  intro word hword
  rw [Call.toWords, List.mem_cons, List.mem_append, List.mem_map, List.mem_map] at hword
  rcases hword with rfl | ⟨param, hparam, rfl⟩ | ⟨entry, hentry, rfl⟩
  · exact hmotive _ _ h.head
  · exact hmotive _ _ (h.params param hparam)
  · exact hmotive _ _ (h.hash entry hentry)

theorem Call.foldlM_params {closer : List Char} {head : Expr} {span : Span} {params : List Expr}
    (h : ∀ param ∈ params, Expr.Printable closer none param) (before : List Expr) :
    (params.map (Expr.toWord none)).foldlM Call.addWord ⟨head, before, [], span⟩ =
      .ok ⟨head, before ++ params, [], span⟩ := by
  induction params generalizing before with
  | nil => rw [List.append_nil]; rfl
  | cons param params ih =>
    have hadded : Call.addWord ⟨head, before, [], span⟩ (param.toWord none) =
        .ok ⟨head, before ++ [param], [], span⟩ :=
      Call.addWord_eq_ok_iff.2 ⟨param, (h param (by simp)).read, .inr ⟨param.toWord_key none, rfl, rfl⟩⟩
    rw [List.map_cons, List.foldlM_cons, hadded]
    have hrest := ih (fun other hother => h other (by simp [hother])) (before ++ [param])
    rw [List.append_assoc] at hrest
    exact hrest

theorem Call.foldlM_hash {closer : List Char} {head : Expr} {params : List Expr} {span : Span}
    {hash : Table Expr} (h : ∀ entry ∈ hash, Expr.Printable closer (some entry.1) entry.2)
    (before : Table Expr) (hsorted : Table.Sorted (before ++ hash)) :
    (hash.map fun entry => entry.2.toWord (some entry.1)).foldlM Call.addWord
        ⟨head, params, before, span⟩ =
      .ok ⟨head, params, before ++ hash, span⟩ := by
  induction hash generalizing before with
  | nil => rw [List.append_nil]; rfl
  | cons entry hash ih =>
    have hlast : ∀ other ∈ before, other.1 < entry.1 := fun other hother =>
      (List.pairwise_append.1 hsorted).2.2 other hother entry (by simp)
    have hadded : Call.addWord ⟨head, params, before, span⟩ (entry.2.toWord (some entry.1)) =
        .ok ⟨head, params, before ++ [entry], span⟩ := by
      refine Call.addWord_eq_ok_iff.2 ⟨entry.2, (h entry (by simp)).read, .inl ⟨entry.1, ?_, ?_⟩⟩
      · exact entry.2.toWord_key _
      · rw [Table.insert_of_lt hlast]
    have hassoc : before ++ entry :: hash = before ++ [entry] ++ hash := by simp
    rw [hassoc] at hsorted ⊢
    rw [List.map_cons, List.foldlM_cons, hadded]
    exact ih (fun other hother => h other (by simp [hother])) _ hsorted

theorem Call.foldlM_toWords {closer : List Char} {call : Call} (h : call.Printable closer) (span : Span) :
    call.toWords.tail.foldlM Call.addWord ⟨call.head, [], [], span⟩ = .ok { call with span := span } := by
  rw [Call.toWords, List.tail_cons, List.foldlM_append, Call.foldlM_params h.params []]
  exact Call.foldlM_hash h.hash [] h.sorted

/-- A printable call is read from its canonical words. -/
theorem Call.Printable.ofBody {closer : List Char} {call : Call} (h : call.Printable closer) (place : Nat) :
    ∃ moved, Call.ofBody place (Word.spaced call.toWords) = .ok moved ∧ moved.unplaced = call.unplaced := by
  have hwords := h.forall_mem_toWords (motive := Word.WellFormed) fun _ _ hexpr => hexpr.wellFormed
  obtain ⟨row, hrow, hsame⟩ := Word.row_spaced hwords place
  obtain ⟨first, others, rfl, hfirst, hothers⟩ := List.map_eq_cons_iff.1 hsame
  have hcall := Call.foldlM_toWords h ⟨place, place + byteSize (Word.spaced call.toWords)⟩
  obtain ⟨found, hfound, hresult⟩ := Call.foldlM_addWord_of_unplaced rfl hothers.symm hcall
  have hparts := (Call.mk.inj hresult)
  refine ⟨found, Call.ofBody_eq_ok_iff.2 ⟨first, others, call.head, hrow, ?_, ?_, hfound, ?_⟩,
    hresult.symm⟩
  · rw [(Word.key_eq_of_unplaced hfirst).1, call.head.toWord_key]
  · exact Expr.ofWord_of_unplaced hfirst.symm h.head.read
  · rw [← h.alone, Call.hasArguments, Call.hasArguments, ← hparts.1, ← hparts.2.1, ← hparts.2.2.1]

theorem Call.Printable.clear_spaced {kind : TagKind} {call : Call} (h : call.Printable kind.closer) :
    Clear kind.closer kind.closer (Word.spaced call.toWords) := by
  refine Word.clear_spaced ?_ ?_ (h.forall_mem_toWords fun _ _ hexpr => hexpr.clear)
  · cases kind <;> decide
  · cases kind <;> decide

/-! ### Names of partials -/

theorem clear_of_not_infix {marker text : List Char} (hspace : ' ' ∉ marker) (hquote : '"' ∉ text)
    (h : ¬marker <:+: text) : Clear marker [' '] text := by
  induction text with
  | nil => exact .nil
  | cons char rest ih =>
    rw [List.mem_cons, not_or] at hquote
    rw [List.infix_cons_iff, not_or] at h
    refine .plain (Ne.symm hquote.1) (fun hstarts => h.1 ?_) (ih hquote.2 h.2)
    have hword : marker <+: (char :: rest) ++ ' ' :: [] := hstarts
    exact prefix_left_of_notMem hspace hword

theorem Clear.not_infix {marker tail text : List Char} (h : Clear marker tail text) (hmarker : marker ≠ [])
    (hquote : '"' ∉ text) : ¬marker <:+: text := by
  induction text with
  | nil => simpa using hmarker
  | cons char rest ih =>
    rw [List.mem_cons, not_or] at hquote
    obtain ⟨hstart, hrest⟩ := h.of_plain (Ne.symm hquote.1)
    rw [List.infix_cons_iff, not_or]
    refine ⟨fun hstarts => hstart ?_, ih hrest hquote.2⟩
    rw [← List.cons_append]
    exact hstarts.trans (List.prefix_append _ tail)

theorem isBareName_iff {name : String} :
    isBareName name = true ↔ Word.IsName name.toList ∧ ¬['}', '}'] <:+: name.toList := by
  simp [isBareName, Word.IsName, and_assoc]

theorem nameWord_printable {first : Word} (hfirst : first.WellFormed) (hkey : first.key = none)
    (hclear : Clear ['}', '}'] [' '] first.raw) :
    (nameWord first.value).WellFormed ∧ Clear ['}', '}'] [' '] (nameWord first.value).raw := by
  by_cases hbare : isBareName first.value = true
  · obtain ⟨hname, hbraces⟩ := isBareName_iff.1 hbare
    rw [nameWord, hbare]
    refine ⟨Word.wellFormed_bare hname 0, clear_of_not_infix (by decide) ?_ hbraces⟩
    intro hquote
    exact absurd (hname.2 '"' hquote) (by decide)
  · have hquoted : first.quoted = true := by
      by_contra hquoted
      rw [Bool.not_eq_true] at hquoted
      have hname := hfirst.name hquoted hkey
      have hraw : first.raw = first.value.toList := by
        simp [Word.raw_eq, Word.keyText, Word.valueText, hkey, hquoted]
      rw [hraw] at hclear
      refine hbare (isBareName_iff.2 ⟨hname, hclear.not_infix (by simp) fun hquote => ?_⟩)
      exact absurd (hname.2 '"' hquote) (by decide)
    rw [Bool.not_eq_true] at hbare
    rw [nameWord, hbare]
    exact ⟨⟨by simp, fun _ => hfirst.quoted hquoted, by simp, by simp⟩,
      .quoted (hfirst.quoted hquoted) .nil⟩

end Stencil
