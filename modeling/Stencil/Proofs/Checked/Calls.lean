import Stencil.Markup.Call
import Stencil.Proofs.Checked.Words

/-!
# Reading calls by places

A call and a partial are read from the words that the cursor comes to. The only places in them are
those of words and of the body itself, so their errors are found at boundaries.
-/

namespace Stencil

/-- Gives what was read without a slice, or refuses the template for its fault. -/
def raise {α : Type} (source : List Char) : Except Fault α → Checked α
  | .ok result => .ok result
  | .error fault => refuse source fault.cause fault.place

theorem raise_agrees {α : Type} {source : List Char} {reader : Except Fault α}
    (h : ∀ fault, reader = .error fault → fault.cause ≠ .unterminatedTag ∧ IsBoundary source fault.place) :
    Agrees source Eq (raise source reader) reader := by
  cases reader with
  | ok result => exact .done rfl
  | error fault =>
    obtain ⟨hcause, hplace⟩ := h fault rfl
    exact .refuse hcause hplace

/-! ### Arguments -/

/-- What is wrong with a word is found where its value stands. -/
theorem Expr.ofWord_error {word : Word} {fault : Fault} (h : Expr.ofWord word = .error fault) :
    fault.cause ≠ .unterminatedTag ∧ fault.place = word.place := by
  rw [Expr.ofWord] at h
  split at h
  · cases h
  · split at h
    · cases h
    · split at h
      · cases h
      · split at h
        · cases h
        · split at h
          · cases h
          · obtain rfl := Except.error.inj h
            exact ⟨by simp, rfl⟩

theorem Call.addWord_error {call : Call} {word : Word} {fault : Fault} (h : call.addWord word = .error fault) :
    fault.cause ≠ .unterminatedTag ∧ fault.place = word.place := by
  have hvalue : ∀ next : Expr → Call, (Expr.ofWord word >>= fun value => .ok (next value)) = .error fault →
      fault.cause ≠ .unterminatedTag ∧ fault.place = word.place := by
    intro next hnext
    cases hword : Expr.ofWord word with
    | ok value =>
      rw [hword] at hnext
      cases hnext
    | error found =>
      rw [hword] at hnext
      obtain rfl := Except.error.inj hnext
      exact Expr.ofWord_error hword
  rw [Call.addWord] at h
  split at h
  · exact hvalue _ h
  · split at h
    · exact hvalue _ h
    · obtain rfl := Except.error.inj h
      exact ⟨by simp, rfl⟩

def Call.addAll (call : Call) (others : Scanned Fault Word) : Except Fault Call := do
  let call ← others.items.foldlM addWord call
  match others.failure with
  | some fault => .error fault
  | none => .ok call

theorem Call.addAll_add (call : Call) (word : Word) (others : Scanned Fault Word) :
    call.addAll (others.add (some word)) = call.addWord word >>= fun next => next.addAll others := by
  simp only [addAll, Scanned.add, Option.toList_some, List.singleton_append, List.foldlM_cons, bind_assoc]

theorem Call.addAll_bind {α : Type} (call : Call) (others : Scanned Fault Word) (next : Call → Except Fault α) :
    (call.addAll others >>= next) = (others.items.foldlM addWord call >>= fun call =>
      if let some fault := others.failure then .error fault else next call) := by
  rw [addAll, bind_assoc]
  refine bind_congr fun call => ?_
  cases others.failure <;> rfl

/-- Adds the words from a place on to a call. A round that does not go forward would never end,
which counts as a panic as well. -/
def addWords (source : List Char) (stop place : Nat) (call : Call) : Checked Call := do
  match ← nextWord source stop place with
  | none => return call
  | some (word, next) =>
    if place < next ∧ next ≤ stop then do
      let call ← raise source (call.addWord word)
      addWords source stop next call
    else .error .panic
termination_by stop - place

section

variable {source text : List Char} {place stop : Nat}

theorem addWords_agrees (hrest : slice source place stop = .ok text) (call : Call) :
    Agrees source Eq (addWords source stop place call) (call.addAll (words place text)) := by
  induction hsize : stop - place using Nat.strong_induction_on generalizing place text call with
  | _ size ih =>
    rw [addWords]
    rcases nextWord_cases hrest with ⟨hnext, hwords⟩ | ⟨fault, hnext, hwords, hplace⟩ |
      ⟨word, next, rest, hnext, hwords, hslice, hgo, hstop, hplace⟩
    · rw [hnext, hwords]
      exact .done rfl
    · rw [hnext, hwords]
      exact .refused hplace
    · rw [hnext, hwords, Call.addAll_add]
      simp only [bind, Except.bind]
      rw [if_pos ⟨hgo, hstop⟩]
      refine Agrees.bind (raise_agrees fun fault hfault => ?_) ?_
      · obtain ⟨hcause, hword⟩ := Call.addWord_error hfault
        exact ⟨hcause, hword ▸ hplace⟩
      · rintro result _ rfl
        exact ih (stop - next) (by omega) hslice result rfl

end

/-! ### Calls and partials -/

def callAt (source : List Char) (body : Span) : Checked Call := do
  match ← nextWord source body.stop body.start with
  | none => refuse source .emptyTag body.start
  | some (first, next) =>
    match first.key with
    | some key => refuse source (.unexpectedToken (key ++ "=")) first.place
    | none =>
      let head ← raise source (Expr.ofWord first)
      let call ← addWords source body.stop next ⟨head, [], [], body⟩
      if call.head.isLiteral && call.hasArguments then
        let text ← slice source body.start body.stop
        refuse source (.unexpectedToken (String.ofList (trim text))) body.start
      else return call

def inclusionAt (source : List Char) (body : Span) : Checked Node := do
  let unexpected (word : Word) : Checked Node := refuse source (.unexpectedToken word.value) word.place
  match ← nextWord source body.stop body.start with
  | none => refuse source .emptyTag body.start
  | some (first, next) =>
    if first.key.isSome then unexpected first
    else match ← nextWord source body.stop next with
      | none => return .inclusion first.value none
      | some (second, next) =>
        if second.key.isSome then unexpected second
        else
          let context ← raise source (Expr.ofWord second)
          match ← nextWord source body.stop next with
          | none => return .inclusion first.value (some context)
          | some (third, _) => unexpected third

section

variable {source text : List Char} {body : Span}

theorem callAt_agrees (hbody : slice source body.start body.stop = .ok text) :
    Agrees source Eq (callAt source body) (Call.ofBody body.start text) := by
  have hstart := (slice_bounds hbody).start
  have hspan : (⟨body.start, body.start + byteSize text⟩ : Span) = body := by
    rw [← (slice_eq_ok_iff.1 hbody).2]
  rw [callAt, Call.ofBody]
  refine (nextWord_agrees hbody).bind ?_
  rintro _ _ (_ | ⟨hslice, rfl, -, hplace⟩)
  · exact .refuse (by simp) hstart
  · next word next rest =>
    cases hkey : word.key with
    | some key =>
      simp only [hkey]
      exact .refuse (by simp) hplace
    | none =>
      simp only [hkey, hspan]
      refine Agrees.bind (raise_agrees fun fault hfault => ?_) ?_
      · obtain ⟨hcause, hword⟩ := Expr.ofWord_error hfault
        exact ⟨hcause, hword ▸ hplace⟩
      · rintro head _ rfl
        refine (congrArg (Agrees source Eq _) (Call.addAll_bind _ _ fun call =>
          if call.head.isLiteral && call.hasArguments then
            .error ⟨.unexpectedToken (String.ofList (trim text)), body.start⟩
          else .ok call)).mp ?_
        refine (addWords_agrees hslice ⟨head, [], [], body⟩).bind ?_
        rintro call _ rfl
        split
        · exact .slice_bind (slice_eq_ok_iff.1 hbody).1 (slice_eq_ok_iff.1 hbody).2 (.refuse (by simp) hstart)
        · exact .done rfl

theorem inclusionAt_agrees (hbody : slice source body.start body.stop = .ok text) :
    Agrees source Eq (inclusionAt source body) (Node.inclusionOfBody body.start text) := by
  have hunexpected : ∀ word : Word, IsBoundary source word.place →
      Agrees source (@Eq Node) (refuse source (.unexpectedToken word.value) word.place)
        (.error ⟨.unexpectedToken word.value, word.place⟩) :=
    fun word hplace => .refuse (by simp) hplace
  rw [inclusionAt, Node.inclusionOfBody]
  refine (nextWord_agrees hbody).bind ?_
  rintro _ _ (_ | ⟨hslice, rfl, -, hplace⟩)
  · exact .refuse (by simp) (slice_bounds hbody).start
  · next word next rest =>
    by_cases hkey : word.key.isSome
    · simp only [hkey, if_true]
      exact hunexpected word hplace
    · simp only [hkey]
      refine (nextWord_agrees hslice).bind ?_
      rintro _ _ (_ | ⟨hslice, rfl, -, hplace⟩)
      · exact .done rfl
      · next second next rest =>
        by_cases hkey : second.key.isSome
        · simp only [hkey, if_true]
          exact hunexpected second hplace
        · simp only [hkey]
          refine Agrees.bind (raise_agrees fun fault hfault => ?_) ?_
          · obtain ⟨hcause, hword⟩ := Expr.ofWord_error hfault
            exact ⟨hcause, hword ▸ hplace⟩
          · rintro context _ rfl
            refine (nextWord_agrees hslice).bind ?_
            rintro _ _ (_ | ⟨-, -, -, hplace⟩)
            · exact .done rfl
            · exact hunexpected _ hplace

end

end Stencil
