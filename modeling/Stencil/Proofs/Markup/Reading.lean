import Stencil.Markup.Document
import Stencil.Proofs.Markup.WordRow

/-!
# What a body reads as

A body reads as a call exactly if it is a row of words of which the first has no key and the others
can be added one by one. It reads as a partial exactly if it is a row of one or two words without
keys. In each case the quotes of the body pair inside it.
-/

namespace Stencil

theorem bind_eq_ok_iff {ε α β : Type} {value : Except ε α} {next : α → Except ε β} {result : β} :
    value >>= next = .ok result ↔ ∃ found, value = .ok found ∧ next found = .ok result := by
  cases value with
  | error failure => simp [bind, Except.bind]
  | ok found => simp [bind, Except.bind]

theorem map_eq_ok_iff {ε α β : Type} {value : Except ε α} {change : α → β} {result : β} :
    value.map change = .ok result ↔ ∃ found, value = .ok found ∧ change found = result := by
  cases value <;> simp [Except.map]

theorem Word.next_eq_some_iff {found others : Scanned Fault Word} {first : Word} :
    found.next = .ok (some (first, others)) ↔ found = ⟨first :: others.items, others.failure⟩ := by
  obtain ⟨_ | ⟨item, items⟩, _ | failure⟩ := found <;> obtain ⟨others, rest⟩ := others <;>
    simp [Scanned.next, and_assoc]

theorem Word.next_eq_none_iff {found : Scanned Fault Word} :
    found.next = .ok none ↔ found = ⟨[], none⟩ := by
  obtain ⟨_ | ⟨item, items⟩, _ | failure⟩ := found <;> simp [Scanned.next]

theorem Call.ofBody_eq_ok_iff {place : Nat} {body : List Char} {call : Call} :
    Call.ofBody place body = .ok call ↔
      ∃ first others head, Word.Row place body (first :: others) ∧ first.key = none ∧
        Expr.ofWord first = .ok head ∧
        others.foldlM Call.addWord ⟨head, [], [], ⟨place, place + byteSize body⟩⟩ = .ok call ∧
        (call.head.isLiteral && call.hasArguments) = false := by
  simp only [← Word.words_eq_iff]
  rw [Call.ofBody, bind_eq_ok_iff]
  constructor
  · rintro ⟨_ | ⟨first, others, failure⟩, hnext, h⟩
    · simp at h
    · cases hkey : first.key with
      | some key => simp [hkey] at h
      | none =>
        simp only [hkey, bind_eq_ok_iff] at h
        obtain ⟨head, hhead, found, hfound, h⟩ := h
        cases failure with
        | some fault => simp at h
        | none =>
          simp only at h
          split at h
          · simp at h
          · next hliteral =>
            obtain rfl := Except.ok.inj h
            exact ⟨first, others, head, Word.next_eq_some_iff.1 hnext, hkey, hhead, hfound,
              by simpa using hliteral⟩
  · intro hgiven
    obtain ⟨first, others, head, hwords, hkey, hhead, hcall, hliteral⟩ := hgiven
    have hnext : (words place body).next = .ok (some (first, ⟨others, none⟩)) :=
      Word.next_eq_some_iff.2 hwords
    refine ⟨_, hnext, ?_⟩
    simp only [hkey, bind_eq_ok_iff]
    exact ⟨head, hhead, call, hcall, by simp [hliteral]⟩

theorem Node.inclusionOfBody_eq_ok_iff {place : Nat} {body : List Char} {node : Node} :
    Node.inclusionOfBody place body = .ok node ↔
      ∃ first, first.key = none ∧
        ((Word.Row place body [first] ∧ node = .inclusion first.value none) ∨
          ∃ second context, Word.Row place body [first, second] ∧ second.key = none ∧
            Expr.ofWord second = .ok context ∧ node = .inclusion first.value (some context)) := by
  simp only [← Word.words_eq_iff]
  rw [Node.inclusionOfBody, bind_eq_ok_iff]
  constructor
  · rintro ⟨_ | ⟨first, others⟩, hfirst, h⟩
    · simp at h
    · rw [Word.next_eq_some_iff] at hfirst
      simp only at h
      split at h
      · simp at h
      · next hkey =>
        rw [bind_eq_ok_iff] at h
        refine ⟨first, by simpa using hkey, ?_⟩
        obtain ⟨_ | ⟨second, rest⟩, hsecond, h⟩ := h
        · rw [Word.next_eq_none_iff] at hsecond
          exact .inl ⟨by rw [hfirst, hsecond], by simpa using h.symm⟩
        · rw [Word.next_eq_some_iff] at hsecond
          simp only at h
          split at h
          · simp at h
          · next hkey =>
            simp only [bind_eq_ok_iff] at h
            obtain ⟨context, hcontext, _ | ⟨third, _⟩, hthird, h⟩ := h
            · rw [Word.next_eq_none_iff] at hthird
              subst hthird
              exact .inr ⟨second, context, by rw [hfirst, hsecond], by simpa using hkey, hcontext,
                by simpa using h.symm⟩
            · simp at h
  · rintro ⟨first, hkey, ⟨hwords, rfl⟩ | ⟨second, context, hwords, hsecond, hcontext, rfl⟩⟩
    · have hfirst : (words place body).next = .ok (some (first, ⟨[], none⟩)) :=
        Word.next_eq_some_iff.2 hwords
      refine ⟨_, hfirst, ?_⟩
      simp [hkey, Scanned.next, bind, Except.bind]
    · have hfirst : (words place body).next = .ok (some (first, ⟨[second], none⟩)) :=
        Word.next_eq_some_iff.2 hwords
      refine ⟨_, hfirst, ?_⟩
      simp [hkey, hsecond, hcontext, Scanned.next, bind, Except.bind]

/-! ### Paths as heads -/

theorem Path.text_of_ofText {text : List Char} {path : Path} (h : Path.ofText? text = some path) :
    path.text = String.ofList text := by
  simp only [Path.ofText?, Option.ite_none_left_eq_some, Option.some.injEq] at h
  rw [← h.2.2]

/-- Only a bare word reads as a path, and the path keeps it as it is written. -/
theorem Expr.eq_of_ofWord_path {word : Word} {path : Path} (h : Expr.ofWord word = .ok (.path path)) :
    word.quoted = false ∧ path.text = word.value := by
  rw [Expr.ofWord] at h
  split at h
  · simp at h
  · next hquoted =>
    refine ⟨by simpa using hquoted, ?_⟩
    split at h
    · simp at h
    · split at h
      · simp at h
      · split at h
        · simp at h
        · split at h
          · next found hfound =>
            obtain rfl : found = path := by simpa using h
            rw [Path.text_of_ofText hfound, String.ofList_toList]
          · simp at h

theorem Call.addWord_eq_ok_iff {call next : Call} {word : Word} :
    call.addWord word = .ok next ↔ ∃ value, Expr.ofWord word = .ok value ∧
      ((∃ key, word.key = some key ∧ next = { call with hash := call.hash.insert key value }) ∨
        (word.key = none ∧ call.hash = [] ∧ next = { call with params := call.params ++ [value] })) := by
  rw [Call.addWord]
  cases word.key with
  | some key =>
    simp only [bind_eq_ok_iff]
    simp [pure, Except.pure, eq_comm]
  | none =>
    cases hhash : call.hash with
    | nil =>
      simp only [List.isEmpty_nil, if_true, bind_eq_ok_iff]
      simp [pure, Except.pure, eq_comm]
    | cons entry rest => simp

/-- What each word that is added keeps, all words keep. -/
theorem Call.foldlM_addWord_induction {motive : Call → Prop} {words : List Word} {call result : Call}
    (hstep : ∀ call next word, word ∈ words → motive call → Call.addWord call word = .ok next → motive next)
    (hcall : motive call) (h : words.foldlM Call.addWord call = .ok result) : motive result := by
  induction words generalizing call with
  | nil =>
    obtain rfl : call = result := by simpa [pure, Except.pure] using h
    exact hcall
  | cons word words ih =>
    rw [List.foldlM_cons, bind_eq_ok_iff] at h
    obtain ⟨next, hnext, h⟩ := h
    refine ih (fun call next other hother => hstep call next other (by simp [hother])) ?_ h
    exact hstep call next word (by simp) hcall hnext

theorem Call.fixed_of_foldlM_addWord {words : List Word} {call result : Call}
    (h : words.foldlM Call.addWord call = .ok result) : result.head = call.head ∧ result.span = call.span := by
  refine Call.foldlM_addWord_induction
    (motive := fun next => next.head = call.head ∧ next.span = call.span) ?_ ⟨rfl, rfl⟩ h
  intro before next word _ hbefore hnext
  obtain ⟨value, -, ⟨key, -, rfl⟩ | ⟨-, -, rfl⟩⟩ := Call.addWord_eq_ok_iff.1 hnext
  · exact hbefore
  · exact hbefore

theorem Call.span_of_ofBody {place : Nat} {body : List Char} {call : Call}
    (h : Call.ofBody place body = .ok call) : call.span = ⟨place, place + byteSize body⟩ := by
  obtain ⟨_, _, _, -, -, -, hcall, -⟩ := Call.ofBody_eq_ok_iff.1 h
  exact (Call.fixed_of_foldlM_addWord hcall).2

theorem Word.Row.wellFormed {place : Nat} {body : List Char} {words : List Word}
    (h : Word.Row place body words) : ∀ word ∈ words, word.WellFormed := by
  induction h with
  | nil => simp
  | blank _ _ ih => exact ih
  | word hword _ _ _ ih =>
    intro word hmem
    rcases List.mem_cons.1 hmem with rfl | hmem
    · exact hword
    · exact ih word hmem

theorem Call.isName_of_ofBody {place : Nat} {body : List Char} {call : Call} {path : Path}
    (h : Call.ofBody place body = .ok call) (hpath : call.head = .path path) :
    Word.IsName path.text.toList := by
  obtain ⟨first, others, head, hrow, hkey, hhead, hcall, -⟩ := Call.ofBody_eq_ok_iff.1 h
  obtain rfl : call.head = head := (Call.fixed_of_foldlM_addWord hcall).1
  rw [hpath] at hhead
  obtain ⟨hquoted, htext⟩ := Expr.eq_of_ofWord_path hhead
  rw [htext]
  exact (hrow.wellFormed first (by simp)).name hquoted hkey

/-! ### Trimmed bodies -/

theorem exists_of_trim (text : List Char) : ∃ left right, text = left ++ (trim text ++ right) ∧
    (∀ char ∈ left, isBlank char = true) ∧ ∀ char ∈ right, isBlank char = true := by
  refine ⟨text.takeWhile isBlank, ((text.dropWhile isBlank).reverse.takeWhile isBlank).reverse, ?_,
    fun char hchar => List.mem_takeWhile_imp hchar, fun char hchar => ?_⟩
  · rw [trim, ← List.reverse_append, List.takeWhile_append_dropWhile, List.reverse_reverse,
      List.takeWhile_append_dropWhile]
  · exact List.mem_takeWhile_imp (List.mem_reverse.1 hchar)

theorem paired_of_trim {text : List Char} (h : '"' ∉ trim text) : Paired text := by
  refine paired_of_quoteless fun hquote => ?_
  obtain ⟨left, right, htext, hleft, hright⟩ := exists_of_trim text
  rw [htext] at hquote
  rcases List.mem_append.1 hquote with hquote | hquote
  · exact absurd (hleft _ hquote) (by decide)
  · rcases List.mem_append.1 hquote with hquote | hquote
    · exact h hquote
    · exact absurd (hright _ hquote) (by decide)

theorem Call.paired_of_ofBody {place : Nat} {body : List Char} {call : Call}
    (h : Call.ofBody place body = .ok call) : Paired body := by
  obtain ⟨_, _, _, hrow, -⟩ := Call.ofBody_eq_ok_iff.1 h
  exact hrow.paired

theorem Node.paired_of_inclusionOfBody {place : Nat} {body : List Char} {node : Node}
    (h : Node.inclusionOfBody place body = .ok node) : Paired body := by
  obtain ⟨_, -, ⟨hrow, -⟩ | ⟨_, _, hrow, -⟩⟩ := Node.inclusionOfBody_eq_ok_iff.1 h
  · exact hrow.paired
  · exact hrow.paired

end Stencil
