import Stencil.Proofs.Markup.Printable

/-!
# The arguments of a call

A row of words is a call exactly if the first word has no key, the words with keys stand behind all
others, every bare word that is no literal is a path, and a literal stands alone. The words without
keys are the parameters in their order. Of the words with one key only the last counts, so it makes
no difference in which order the keys come.
-/

namespace Stencil

namespace Word

/-- The word is a literal: a quoted string, a truth value or a numeral. -/
def IsLiteral (word : Word) : Prop :=
  word.quoted = true ∨ word.value = "true" ∨ word.value = "false" ∨ isNumeral word.value.toList = true

/-- The words of a row that have a key, which is none for a parameter. -/
def keyed (key : Option String) (row : List Word) : List Word :=
  row.filter (·.key = key)

theorem keyed_append (key : Option String) (left right : List Word) :
    keyed key (left ++ right) = keyed key left ++ keyed key right :=
  List.filter_append left right

/-- No word without a key stands behind one with a key. -/
def BareFirst (row : List Word) : Prop :=
  row.Pairwise fun left right => left.key ≠ none → right.key ≠ none

end Word

/-- The rows of words that are calls. -/
@[mk_iff]
structure IsCall (row : List Word) : Prop where
  head : ∃ first ∈ row.head?, first.key = none
  bareFirst : Word.BareFirst row
  paths : ∀ word ∈ row, ¬word.IsLiteral → ∃ path, Path.ofText? word.value.toList = some path
  alone : ∀ first ∈ row.head?, first.IsLiteral → row.length = 1

/-- A call has the first word of a row as its head, the other words without keys as its parameters,
in their order, and for each key what the last word with it denotes. -/
@[mk_iff]
structure Call.Collects (row : List Word) (call : Call) : Prop where
  head : ∃ first ∈ row.head?, Expr.ofWord first = .ok call.head
  params : List.Forall₂ (fun word value => Expr.ofWord word = .ok value) (Word.keyed none row.tail) call.params
  hash : ∀ key value, call.hash.find? key = some value ↔
    ∃ word ∈ (Word.keyed (some key) row).getLast?, Expr.ofWord word = .ok value
  sorted : call.hash.Sorted

/-! ### Single words -/

namespace Expr

theorem exists_ofWord_iff {word : Word} :
    (∃ value, ofWord word = .ok value) ↔
      (¬word.IsLiteral → ∃ path, Path.ofText? word.value.toList = some path) := by
  rw [Word.IsLiteral, ofWord]
  split_ifs with hquoted htrue hfalse hnumeral
  · simp [hquoted]
  · simp [htrue]
  · simp [hfalse]
  · simp [hnumeral]
  · cases Path.ofText? word.value.toList <;> simp [hquoted, htrue, hfalse, hnumeral]

theorem isLiteral_of_ofWord {word : Word} {value : Expr} (h : ofWord word = .ok value) :
    value.isLiteral = true ↔ word.IsLiteral := by
  rw [ofWord] at h
  rw [Word.IsLiteral]
  split_ifs at h with hquoted htrue hfalse hnumeral
  · obtain rfl := Except.ok.inj h
    simp [isLiteral, hquoted]
  · obtain rfl := Except.ok.inj h
    simp [isLiteral, htrue]
  · obtain rfl := Except.ok.inj h
    simp [isLiteral, hfalse]
  · obtain rfl := Except.ok.inj h
    simp [isLiteral, hnumeral]
  · cases hpath : Path.ofText? word.value.toList with
    | some path =>
      rw [hpath] at h
      obtain rfl := Except.ok.inj h
      simp [isLiteral, hquoted, htrue, hfalse, hnumeral]
    | none => simp [hpath] at h

end Expr

/-! ### Adding a row of words -/

namespace Call

variable {row : List Word} {call result : Call}

/-- A row of words can be added to a call exactly if they all denote something and no word without a
key comes behind a key. -/
theorem exists_foldlM_addWord_iff :
    (∃ result, row.foldlM addWord call = .ok result) ↔
      (call.hash ≠ [] → ∀ word ∈ row, word.key ≠ none) ∧ Word.BareFirst row ∧
        ∀ word ∈ row, ∃ value, Expr.ofWord word = .ok value := by
  induction row generalizing call with
  | nil => simp [Word.BareFirst, pure, Except.pure]
  | cons word row ih =>
    simp only [List.foldlM_cons, bind_eq_ok_iff, Word.BareFirst, List.pairwise_cons, List.forall_mem_cons]
    constructor
    · rintro ⟨result, next, hnext, hresult⟩
      obtain ⟨hkeys, hrow, hvalues⟩ := ih.1 ⟨result, hresult⟩
      obtain ⟨value, hvalue, ⟨key, hkey, rfl⟩ | ⟨hkey, hhash, rfl⟩⟩ := addWord_eq_ok_iff.1 hnext
      · have hkeys := hkeys (Table.insert_ne_nil key value call.hash)
        refine ⟨fun _ => ⟨by simp [hkey], hkeys⟩, ⟨?_, hrow⟩, ⟨value, hvalue⟩, hvalues⟩
        exact fun other hother _ => hkeys other hother
      · refine ⟨fun hne => absurd hhash hne, ⟨?_, hrow⟩, ⟨value, hvalue⟩, hvalues⟩
        exact fun _ _ hbare => absurd hkey hbare
    · rintro ⟨hkeys, ⟨hword, hrow⟩, ⟨value, hvalue⟩, hvalues⟩
      cases hkey : word.key with
      | some key =>
        have hword := fun other hother => hword other hother (by simp [hkey])
        obtain ⟨result, hresult⟩ := ih.2 ⟨fun _ => hword, hrow, hvalues⟩
        exact ⟨result, _, addWord_eq_ok_iff.2 ⟨value, hvalue, .inl ⟨key, hkey, rfl⟩⟩, hresult⟩
      | none =>
        have hhash : call.hash = [] := by
          by_contra hne
          exact (hkeys hne).1 hkey
        obtain ⟨result, hresult⟩ : ∃ result,
            row.foldlM addWord { call with params := call.params ++ [value] } = .ok result :=
          ih.2 ⟨fun hne => absurd hhash hne, hrow, hvalues⟩
        exact ⟨result, _, addWord_eq_ok_iff.2 ⟨value, hvalue, .inr ⟨hkey, hhash, rfl⟩⟩, hresult⟩

theorem params_of_foldlM_addWord (h : row.foldlM addWord call = .ok result) :
    ∃ added, result.params = call.params ++ added ∧
      List.Forall₂ (fun word value => Expr.ofWord word = .ok value) (Word.keyed none row) added := by
  induction row generalizing call with
  | nil =>
    obtain rfl := Except.ok.inj h
    exact ⟨[], by simp, .nil⟩
  | cons word row ih =>
    rw [List.foldlM_cons, bind_eq_ok_iff] at h
    obtain ⟨next, hnext, h⟩ := h
    obtain ⟨added, hparams, hadded⟩ := ih h
    obtain ⟨value, hvalue, ⟨key, hkey, rfl⟩ | ⟨hkey, -, rfl⟩⟩ := addWord_eq_ok_iff.1 hnext
    · exact ⟨added, hparams, by simpa [Word.keyed, hkey] using hadded⟩
    · refine ⟨value :: added, by simpa using hparams, ?_⟩
      simpa [Word.keyed, hkey] using ⟨hvalue, hadded⟩

/-- A key has the value of its last word, or the value it had before if no word has it. -/
theorem find?_of_foldlM_addWord (h : row.foldlM addWord call = .ok result) (key : String) :
    (Word.keyed (some key) row = [] ∧ result.hash.find? key = call.hash.find? key) ∨
      ∃ word value, (Word.keyed (some key) row).getLast? = some word ∧ Expr.ofWord word = .ok value ∧
        result.hash.find? key = some value := by
  induction row generalizing call with
  | nil =>
    obtain rfl := Except.ok.inj h
    exact .inl ⟨rfl, rfl⟩
  | cons word row ih =>
    rw [List.foldlM_cons, bind_eq_ok_iff] at h
    obtain ⟨next, hnext, h⟩ := h
    obtain ⟨value, hvalue, hnext⟩ := addWord_eq_ok_iff.1 hnext
    by_cases hkey : word.key = some key
    · have hnext : next.hash.find? key = some value := by
        obtain ⟨found, hfound, rfl⟩ | ⟨hnone, -, -⟩ := hnext
        · obtain rfl := Option.some.inj (hkey.symm.trans hfound)
          exact Table.find?_insert_self key value call.hash
        · simp [hkey] at hnone
      rcases ih h with ⟨hnone, hfound⟩ | ⟨last, found, hlast, hrest⟩
      · refine .inr ⟨word, value, ?_, hvalue, hfound.trans hnext⟩
        rw [Word.keyed] at hnone
        simp [Word.keyed, hkey, hnone]
      · refine .inr ⟨last, found, ?_, hrest⟩
        rw [Word.keyed] at hlast
        simp [Word.keyed, hkey, List.getLast?_cons, hlast]
    · have hnext : next.hash.find? key = call.hash.find? key := by
        obtain ⟨found, hfound, rfl⟩ | ⟨-, -, rfl⟩ := hnext
        · exact Table.find?_insert_of_ne (by rintro rfl; exact hkey hfound) value call.hash
        · rfl
      have hkeyed : Word.keyed (some key) (word :: row) = Word.keyed (some key) row := by
        simp [Word.keyed, hkey]
      rw [hkeyed, ← hnext]
      exact ih h

theorem collects_of_ofBody {place : Nat} {body : List Char} (hrow : words place body = ⟨row, none⟩)
    (h : ofBody place body = .ok call) : call.Collects row := by
  obtain ⟨first, others, head, hfound, hkey, hhead, hothers, -⟩ := ofBody_eq_ok_iff.1 h
  obtain rfl : row = first :: others := by simpa [hrow] using Word.words_eq_iff.2 hfound
  have hkeyed : ∀ key, Word.keyed (some key) (first :: others) = Word.keyed (some key) others := by
    simp [Word.keyed, hkey]
  obtain ⟨added, hparams, hadded⟩ := params_of_foldlM_addWord hothers
  refine ⟨⟨first, rfl, ?_⟩, ?_, fun key value => ?_, ?_⟩
  · rwa [(fixed_of_foldlM_addWord hothers).1]
  · rw [hparams]
    exact hadded
  · rw [hkeyed]
    rcases find?_of_foldlM_addWord hothers key with ⟨hnone, hfound⟩ | ⟨word, found, hword, hvalue, hfound⟩
    · simp [hnone, hfound, Table.find?]
    · simp [hword, hvalue, hfound, eq_comm]
  · refine foldlM_addWord_induction (motive := fun call => call.hash.Sorted) ?_ ?_ hothers
    intro before next word _ hbefore hnext
    obtain ⟨value, -, ⟨key, -, rfl⟩ | ⟨-, -, rfl⟩⟩ := addWord_eq_ok_iff.1 hnext
    · exact hbefore.insert key value
    · exact hbefore
    · exact List.Pairwise.nil

theorem exists_ofBody_iff {place : Nat} {body : List Char} (hrow : words place body = ⟨row, none⟩) :
    (∃ call, ofBody place body = .ok call) ↔ IsCall row := by
  have hrow' : ∀ {found}, Word.Row place body found ↔ row = found := by
    simp [← Word.words_eq_iff, hrow]
  simp only [ofBody_eq_ok_iff, hrow']
  constructor
  · intro hgiven
    obtain ⟨call, first, others, head, rfl, hkey, hhead, hothers, halone⟩ := hgiven
    obtain ⟨-, hbare, hvalues⟩ := exists_foldlM_addWord_iff.1 ⟨call, hothers⟩
    have hall := List.forall_mem_cons.2 ⟨⟨head, hhead⟩, hvalues⟩
    refine ⟨⟨first, rfl, hkey⟩, List.pairwise_cons.2 ⟨fun _ _ hfirst => absurd hkey hfirst, hbare⟩, ?_, ?_⟩
    · exact fun word hword => Expr.exists_ofWord_iff.1 (hall word hword)
    · intro _ hfirst hliteral
      obtain rfl := Option.some.inj hfirst
      have hhead := (Expr.isLiteral_of_ofWord hhead).2 hliteral
      rw [(fixed_of_foldlM_addWord hothers).1, hhead, Bool.true_and] at halone
      cases others with
      | nil => rfl
      | cons word others => simp [hasArguments_of_foldlM hothers (by simp)] at halone
  · intro hcall
    obtain ⟨first, hfirst, hkey⟩ := hcall.head
    obtain ⟨others, rfl⟩ := List.head?_eq_some_iff.1 hfirst
    obtain ⟨⟨head, hhead⟩, hvalues⟩ := List.forall_mem_cons.1 fun word hword =>
      Expr.exists_ofWord_iff.2 (hcall.paths word hword)
    obtain ⟨call, hothers⟩ : ∃ call,
        others.foldlM addWord ⟨head, [], [], ⟨place, place + byteSize body⟩⟩ = .ok call :=
      exists_foldlM_addWord_iff.2 ⟨fun hne => absurd rfl hne, (List.pairwise_cons.1 hcall.bareFirst).2, hvalues⟩
    refine ⟨call, first, others, head, rfl, hkey, hhead, hothers, ?_⟩
    rw [(fixed_of_foldlM_addWord hothers).1, Bool.and_eq_false_imp]
    intro hliteral
    have halone := hcall.alone first rfl ((Expr.isLiteral_of_ofWord hhead).1 hliteral)
    obtain rfl : others = [] := by simpa using halone
    obtain rfl := Except.ok.inj hothers
    rfl

/-! ### Other orders of the keys -/

theorem Collects.unique {other : Call} (h : call.Collects row) (h' : other.Collects row) :
    other.head = call.head ∧ other.params = call.params ∧ other.hash = call.hash := by
  have hword : Relator.RightUnique fun word value => Expr.ofWord word = .ok value :=
    fun _ _ _ hleft hright => Except.ok.inj (hleft.symm.trans hright)
  obtain ⟨first, hfirst, hhead⟩ := h.head
  obtain ⟨first', hfirst', hhead'⟩ := h'.head
  obtain rfl := Option.some.inj (hfirst.symm.trans hfirst')
  refine ⟨hword hhead' hhead, hword.forall₂ h'.params h.params, h'.sorted.ext h.sorted fun key => ?_⟩
  refine Option.ext fun value => ?_
  rw [h.hash, h'.hash]

theorem Collects.rearranged {bare pairs other : List Word} (hpairs : ∀ word ∈ pairs, word.key ≠ none)
    (hperm : other.Perm pairs) (hsame : ∀ key, Word.keyed (some key) other = Word.keyed (some key) pairs)
    (hbare : bare ≠ []) (h : call.Collects (bare ++ pairs)) : call.Collects (bare ++ other) := by
  have hnone : ∀ {row : List Word}, (∀ word ∈ row, word.key ≠ none) → Word.keyed none row = [] := by
    intro row hrow
    simpa [Word.keyed] using hrow
  have hother : ∀ word ∈ other, word.key ≠ none := fun word hword => hpairs word (hperm.mem_iff.1 hword)
  obtain ⟨first, bare, rfl⟩ := List.exists_cons_of_ne_nil hbare
  refine ⟨h.head, ?_, fun key value => ?_, h.sorted⟩
  · have hparams := h.params
    rw [List.cons_append, List.tail_cons, Word.keyed_append, hnone hpairs] at hparams
    rw [List.cons_append, List.tail_cons, Word.keyed_append, hnone hother]
    exact hparams
  · rw [h.hash, Word.keyed_append, Word.keyed_append, hsame]

theorem collects_map_unplaced : call.Collects (row.map Word.unplaced) ↔ call.Collects row := by
  have hkeyed : ∀ key row, Word.keyed key (row.map Word.unplaced) = (Word.keyed key row).map Word.unplaced :=
    fun key row => List.filter_map
  simp only [collects_iff, hkeyed, ← List.map_tail, List.head?_map, List.getLast?_map,
    List.forall₂_map_left_iff, Option.mem_map, exists_exists_and_eq_and, Expr.ofWord_unplaced]

end Call

theorem isCall_map_unplaced {row : List Word} : IsCall (row.map Word.unplaced) ↔ IsCall row := by
  simp only [isCall_iff, Word.BareFirst, List.pairwise_map, List.head?_map, List.length_map,
    List.forall_mem_map, Option.mem_map, exists_exists_and_eq_and, forall_exists_index, and_imp,
    forall_apply_eq_imp_iff₂]
  rfl

theorem IsCall.rearranged {bare pairs other : List Word} (hbare : ∀ word ∈ bare, word.key = none)
    (hpairs : ∀ word ∈ pairs, word.key ≠ none) (hperm : other.Perm pairs) (h : IsCall (bare ++ pairs)) :
    bare ≠ [] ∧ IsCall (bare ++ other) := by
  have hother : ∀ word ∈ other, word.key ≠ none := fun word hword => hpairs word (hperm.mem_iff.1 hword)
  obtain ⟨⟨first, hfirst, hkey⟩, -, hpaths, halone⟩ := h
  have hne : bare ≠ [] := by
    rintro rfl
    exact hpairs first (List.mem_of_mem_head? hfirst) hkey
  obtain ⟨head, bare, rfl⟩ := List.exists_cons_of_ne_nil hne
  refine ⟨hne, ⟨head, rfl, hbare head (by simp)⟩, ?_, fun word hword => hpaths word ?_,
    fun word hword hliteral => ?_⟩
  · refine List.pairwise_append.2 ⟨?_, ?_, fun left hleft _ _ hkey => absurd (hbare left hleft) hkey⟩
    · exact List.pairwise_of_forall_mem_list fun left hleft _ _ hkey => absurd (hbare left hleft) hkey
    · exact List.pairwise_of_forall_mem_list fun _ _ right hright _ => hother right hright
  · rw [List.mem_append] at hword ⊢
    exact hword.imp_right hperm.mem_iff.1
  · rw [← halone word hword hliteral, List.length_append, List.length_append, hperm.length_eq]

/-- A body is a call exactly if its words are one, and then the call collects them. If the words
with keys come in another order which keeps that of each key, it is the same call. -/
theorem Call.ofBody_collects {place : Nat} {body : List Char} {row : List Word}
    (hrow : words place body = ⟨row, none⟩) :
    ((∃ call, ofBody place body = .ok call) ↔ IsCall row) ∧
      ∀ call, ofBody place body = .ok call → call.Collects row ∧
        ∀ bare pairs other, row = bare ++ pairs → (∀ word ∈ bare, word.key = none) →
          (∀ word ∈ pairs, word.key ≠ none) → other.Perm pairs →
          (∀ key, Word.keyed (some key) other = Word.keyed (some key) pairs) →
          ∀ place' body' moved, words place' body' = ⟨moved, none⟩ →
            moved.map Word.unplaced = (bare ++ other).map Word.unplaced →
            ∃ call', ofBody place' body' = .ok call' ∧
              call'.head = call.head ∧ call'.params = call.params ∧ call'.hash = call.hash := by
  refine ⟨exists_ofBody_iff hrow, fun call hcall => ⟨collects_of_ofBody hrow hcall, ?_⟩⟩
  rintro bare pairs other rfl hbare hpairs hperm hsame place' body' moved hmoved hunplaced
  obtain ⟨hne, hother⟩ := ((exists_ofBody_iff hrow).1 ⟨call, hcall⟩).rearranged hbare hpairs hperm
  have hcollects := (collects_of_ofBody hrow hcall).rearranged hpairs hperm hsame hne
  rw [← isCall_map_unplaced, ← hunplaced, isCall_map_unplaced] at hother
  rw [← collects_map_unplaced, ← hunplaced, collects_map_unplaced] at hcollects
  obtain ⟨call', hcall'⟩ := (exists_ofBody_iff hmoved).2 hother
  exact ⟨call', hcall', hcollects.unique (collects_of_ofBody hmoved hcall')⟩

theorem Call.ofBody_collects_repeated_key :
    ∃ row call call', words 2 "p a=1 b=2 a=3".toList = ⟨row, none⟩ ∧ IsCall row ∧
      ofBody 2 "p a=1 b=2 a=3".toList = .ok call ∧ call.Collects row ∧
      ofBody 2 "p b=2 a=1 a=3".toList = .ok call' ∧ call'.hash = call.hash := by
  have hrow : words 2 "p a=1 b=2 a=3".toList =
      ⟨[⟨none, "p", false, 2⟩, ⟨some "a", "1", false, 6⟩, ⟨some "b", "2", false, 10⟩,
        ⟨some "a", "3", false, 14⟩], none⟩ := by decide
  have hmoved : words 2 "p b=2 a=1 a=3".toList =
      ⟨[⟨none, "p", false, 2⟩, ⟨some "b", "2", false, 6⟩, ⟨some "a", "1", false, 10⟩,
        ⟨some "a", "3", false, 14⟩], none⟩ := by decide
  have hsame : ∀ key, Word.keyed (some key)
        [⟨some "b", "2", false, 10⟩, ⟨some "a", "1", false, 6⟩, ⟨some "a", "3", false, 14⟩] =
      Word.keyed (some key)
        [⟨some "a", "1", false, 6⟩, ⟨some "b", "2", false, 10⟩, ⟨some "a", "3", false, 14⟩] := by
    intro key
    by_cases hkey : "b" = key
    · subst hkey
      decide
    · simp [Word.keyed, List.filter_cons, hkey]
  obtain ⟨hiff, h⟩ := Call.ofBody_collects hrow
  obtain ⟨call, hcall⟩ : ∃ call, ofBody 2 "p a=1 b=2 a=3".toList = .ok call := ⟨_, rfl⟩
  obtain ⟨hcollects, hother⟩ := h call hcall
  obtain ⟨call', hcall', -, -, hhash⟩ := hother [⟨none, "p", false, 2⟩] _ _ rfl (by decide) (by decide)
    (List.Perm.swap _ _ _) hsame 2 _ _ hmoved rfl
  exact ⟨_, call, call', hrow, hiff.1 ⟨call, hcall⟩, hcall, hcollects, hcall', hhash⟩

end Stencil
