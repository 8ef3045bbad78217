import Stencil.Proofs.Checked.Slice
import Stencil.Proofs.Markup.Tokenization

/-!
# Cutting a template by places

Tokens can be cut from a template by arithmetic on byte places. A search for the end of a tag walks
over the bytes of its body one by one, so it comes to places inside characters as well; but there it
finds neither a quote nor a closing marker, because each byte of a longer character is beyond all of
these. So every slice that is taken bounds a text, and the tokens are those that the segments have.
-/

namespace Stencil

/-! ### Bytes -/

def utf8 (text : List Char) : List UInt8 :=
  text.flatMap String.utf8EncodeChar

theorem length_utf8 (text : List Char) : (utf8 text).length = byteSize text := by
  induction text with
  | nil => rfl
  | cons char rest ih =>
    rw [utf8] at ih ⊢
    rw [List.flatMap_cons, List.length_append, String.length_utf8EncodeChar, ih, byteSize]

theorem utf8_append (left right : List Char) : utf8 (left ++ right) = utf8 left ++ utf8 right :=
  List.flatMap_append

theorem utf8_cons (char : Char) (rest : List Char) :
    utf8 (char :: rest) = String.utf8EncodeChar char ++ utf8 rest :=
  List.flatMap_cons

/-- A character is a single small byte, or consists of large ones. -/
theorem utf8EncodeChar_cases (char : Char) :
    (char.toNat ≤ 127 ∧ String.utf8EncodeChar char = [UInt8.ofNat char.toNat]) ∨
      (127 < char.toNat ∧ String.utf8EncodeChar char ≠ [] ∧
        ∀ byte ∈ String.utf8EncodeChar char, 128 ≤ byte.toNat) := by
  have hvalue : char.val.toNat = char.toNat := rfl
  by_cases hsmall : char.toNat ≤ 127
  · exact .inl ⟨hsmall, by simp [String.utf8EncodeChar, hvalue, hsmall]⟩
  · refine .inr ⟨by omega, ?_, ?_⟩
    · intro hnil
      have hlength := String.length_utf8EncodeChar char
      have hpos := char.utf8Size_pos
      rw [hnil] at hlength
      exact absurd hlength.symm hpos.ne'
    · intro byte hbyte
      simp only [String.utf8EncodeChar, hvalue, if_neg hsmall] at hbyte
      split at hbyte
      · simp only [List.mem_cons, List.not_mem_nil, or_false] at hbyte
        rcases hbyte with rfl | rfl <;> simp only [UInt8.toNat_ofNat'] <;> omega
      · split at hbyte
        · simp only [List.mem_cons, List.not_mem_nil, or_false] at hbyte
          rcases hbyte with rfl | rfl | rfl <;> simp only [UInt8.toNat_ofNat'] <;> omega
        · simp only [List.mem_cons, List.not_mem_nil, or_false] at hbyte
          rcases hbyte with rfl | rfl | rfl | rfl <;> simp only [UInt8.toNat_ofNat'] <;> omega

/-- A marker of small characters stands at the start of a text exactly if its bytes do. -/
theorem isPrefixOf_utf8 {marker : List Char} (hmarker : ∀ char ∈ marker, char.toNat ≤ 127)
    (text : List Char) : (utf8 marker).isPrefixOf (utf8 text) = marker.isPrefixOf text := by
  induction marker generalizing text with
  | nil => cases text <;> simp [utf8]
  | cons char marker ih =>
    obtain ⟨-, hchar⟩ := (utf8EncodeChar_cases char).resolve_right fun hlarge =>
      absurd (hmarker char List.mem_cons_self) (by omega)
    have hsmall := hmarker char List.mem_cons_self
    cases text with
    | nil =>
      rw [utf8_cons, hchar]
      rfl
    | cons first rest =>
      rw [utf8_cons, utf8_cons, hchar, List.singleton_append, List.isPrefixOf_cons_cons]
      rcases utf8EncodeChar_cases first with ⟨hfirst, hbyte⟩ | ⟨hfirst, hne, hbytes⟩
      · rw [hbyte, List.singleton_append, List.isPrefixOf_cons_cons,
          ih fun other hother => hmarker other (List.mem_cons_of_mem _ hother)]
        congr 1
        rw [Bool.eq_iff_iff, beq_iff_eq, beq_iff_eq, ← UInt8.toNat_inj, ← Char.toNat_inj]
        simp only [UInt8.toNat_ofNat']
        omega
      · obtain ⟨byte, more, hmore⟩ := List.exists_cons_of_ne_nil hne
        have hbyte := hbytes byte (by simp [hmore])
        have hchars : (char == first) = false := by
          rw [beq_eq_false_iff_ne]
          rintro rfl
          omega
        have hvalues : (UInt8.ofNat char.toNat == byte) = false := by
          rw [beq_eq_false_iff_ne, ne_eq, ← UInt8.toNat_inj, UInt8.toNat_ofNat']
          omega
        rw [hmore, List.cons_append, List.isPrefixOf_cons_cons, hvalues, hchars, Bool.false_and, Bool.false_and]

/-! ### Strings -/

theorem utf8Size_quote : '"'.utf8Size = 1 := by decide

/-- The length of a quoted string, from a place behind its opening quote on, where the next
character may be guarded. -/
def quotedEnd : Nat → Bool → List Char → Option Nat
  | _, _, [] => none
  | place, guarded, char :: rest =>
    if char = '\\' then quotedEnd (place + char.utf8Size) (!guarded) rest
    else if char = '"' ∧ guarded = false then some (place + 2)
    else quotedEnd (place + char.utf8Size) false rest

/-- The length of the quoted string that starts a text, with both quotes. -/
def quotedBytes (text : List Char) : Checked (Option Nat) := do
  let rest ← slice text 1 (byteSize text)
  return quotedEnd 0 false rest

theorem quotedEnd_eq (place : Nat) (guarded : Bool) (text : List Char) :
    quotedEnd place guarded text =
      (quotedContent guarded text).map fun content => place + byteSize content + 2 := by
  induction text generalizing place guarded with
  | nil => rfl
  | cons char rest ih =>
    have hmap : ∀ other : Option (List Char),
        (other.map fun content => place + char.utf8Size + byteSize content + 2) =
          (other.map (char :: ·)).map fun content => place + byteSize content + 2 := by
      intro other
      rw [Option.map_map]
      congr 1
      funext content
      simp only [Function.comp_apply, byteSize, Nat.add_assoc]
    rw [quotedEnd, quotedContent]
    split
    · rw [ih, hmap]
    · split
      · rfl
      · rw [ih, hmap]

theorem quotedBytes_eq (rest : List Char) :
    quotedBytes ('"' :: rest) = .ok ((quotedContent false rest).map fun content => byteSize content + 2) := by
  have hrest : slice ('"' :: rest) 1 (byteSize ('"' :: rest)) = .ok rest :=
    (StandsAt.whole ('"' :: rest)).tail.slice_eq rfl
  rw [quotedBytes, hrest]
  simp only [bind, Except.bind, pure, Except.pure, quotedEnd_eq, Nat.zero_add]

/-! ### The end of a tag -/

/-- The length of the quoted string that starts at a byte of a text, if there is one. -/
def quotedBytesAt (text : List Char) (index : Nat) : Checked (Option Nat) :=
  if (utf8 text)[index]? = some 34 then do
    let rest ← slice text index (byteSize text)
    quotedBytes rest
  else .ok none

/-- The first closing marker in a body, found by a walk over the bytes that steps over quoted
strings. -/
def findClose (body closer : List Char) (index : Nat) : Checked (Option Nat) :=
  if index < (utf8 body).length then do
    let quoted ← quotedBytesAt body index
    match quoted with
    | some (more + 1) => findClose body closer (index + (more + 1))
    | _ =>
      if (utf8 closer).isPrefixOf ((utf8 body).drop index) then return some index
      else findClose body closer (index + 1)
  else return none
termination_by (utf8 body).length - index

section FindClose

variable {closer : List Char} (hcloser : closer.head? = some '}') (hsmall : ∀ char ∈ closer, char.toNat ≤ 127)

include hcloser in
theorem findClose_skip {body : List Char} {index : Nat} {byte : UInt8}
    (hbyte : (utf8 body)[index]? = some byte) (hlarge : 128 ≤ byte.toNat) :
    findClose body closer index = findClose body closer (index + 1) := by
  obtain ⟨hindex, hget⟩ := List.getElem?_eq_some_iff.1 hbyte
  obtain ⟨more, rfl⟩ := List.head?_eq_some_iff.1 hcloser
  have hquoted : quotedBytesAt body index = .ok none := by
    rw [quotedBytesAt, if_neg]
    rw [hbyte, Option.some.injEq]
    rintro rfl
    exact absurd hlarge (by decide)
  have hprefix : (utf8 ('}' :: more)).isPrefixOf ((utf8 body).drop index) = false := by
    have hvalue : ((125 : UInt8) == byte) = false := by
      rw [beq_eq_false_iff_ne]
      rintro rfl
      exact absurd hlarge (by decide)
    rw [List.drop_eq_getElem_cons hindex, hget, utf8_cons]
    change (125 :: utf8 more).isPrefixOf _ = false
    rw [List.isPrefixOf_cons_cons, hvalue, Bool.false_and]
  rw [findClose, if_pos hindex, hquoted]
  simp only [bind, Except.bind, hprefix]
  rfl

theorem utf8_getElem? (seen : List Char) (char : Char) (rest : List Char) {count : Nat}
    (hcount : count < char.utf8Size) :
    (utf8 (seen ++ char :: rest))[byteSize seen + count]? = (String.utf8EncodeChar char)[count]? := by
  rw [utf8_append, utf8_cons, ← length_utf8, List.getElem?_append_right (Nat.le_add_right _ _),
    Nat.add_sub_cancel_left, List.getElem?_append_left]
  rwa [String.length_utf8EncodeChar]

include hcloser in
theorem findClose_large {char : Char} (hchar : 127 < char.toNat) (seen rest : List Char) :
    findClose (seen ++ char :: rest) closer (byteSize seen) =
      findClose (seen ++ char :: rest) closer (byteSize seen + char.utf8Size) := by
  obtain ⟨-, hbytes⟩ := ((utf8EncodeChar_cases char).resolve_left fun hsmall => by omega).2
  have hwalk : ∀ count ≤ char.utf8Size, findClose (seen ++ char :: rest) closer (byteSize seen) =
      findClose (seen ++ char :: rest) closer (byteSize seen + count) := by
    intro count
    induction count with
    | zero => exact fun _ => rfl
    | succ count ih =>
      intro hcount
      have hlength : count < (String.utf8EncodeChar char).length := by
        rwa [String.length_utf8EncodeChar]
      have hbyte := (utf8_getElem? seen char rest hcount).trans (List.getElem?_eq_getElem hlength)
      rw [ih (Nat.le_of_succ_le hcount)]
      exact findClose_skip hcloser hbyte (hbytes _ (List.getElem_mem hlength))
  exact hwalk _ (Nat.le_refl _)

include hsmall in
theorem findClose_small {char : Char} (hchar : char.toNat ≤ 127) (seen rest : List Char)
    (hquoted : quotedBytesAt (seen ++ char :: rest) (byteSize seen) = .ok none) :
    findClose (seen ++ char :: rest) closer (byteSize seen) =
      if closer.isPrefixOf (char :: rest) then .ok (some (byteSize seen))
      else findClose (seen ++ char :: rest) closer (byteSize seen + char.utf8Size) := by
  have hsize : char.utf8Size = 1 := Char.utf8Size_eq_one_iff.2 hchar
  have hindex : byteSize seen < (utf8 (seen ++ char :: rest)).length := by
    rw [length_utf8, byteSize_append, byteSize]
    omega
  have hdrop : (utf8 (seen ++ char :: rest)).drop (byteSize seen) = utf8 (char :: rest) := by
    rw [utf8_append, ← length_utf8, List.drop_left]
  rw [findClose, if_pos hindex, hquoted, hsize]
  simp only [bind, Except.bind, hdrop, isPrefixOf_utf8 hsmall]
  rfl

theorem quotedBytesAt_of_ne {char : Char} (hchar : char ≠ '"') (seen rest : List Char) :
    quotedBytesAt (seen ++ char :: rest) (byteSize seen) = .ok none := by
  have hbyte := utf8_getElem? seen char rest char.utf8Size_pos
  rw [Nat.add_zero] at hbyte
  rw [quotedBytesAt, if_neg]
  rw [hbyte]
  rcases utf8EncodeChar_cases char with ⟨hsmall, hone⟩ | ⟨hlarge, hne, hbytes⟩
  · rw [hone, List.getElem?_cons_zero, Option.some.injEq, ← UInt8.toNat_inj, UInt8.toNat_ofNat']
    intro heq
    refine hchar (Char.toNat_inj.1 ?_)
    have hvalue : (34 : UInt8).toNat = '"'.toNat := by decide
    rw [hvalue] at heq
    omega
  · obtain ⟨byte, more, hmore⟩ := List.exists_cons_of_ne_nil hne
    rw [hmore, List.getElem?_cons_zero, Option.some.injEq]
    rintro rfl
    exact absurd (hbytes 34 (by simp [hmore])) (by decide)

theorem quotedBytesAt_quote (seen rest : List Char) :
    quotedBytesAt (seen ++ '"' :: rest) (byteSize seen) =
      .ok ((quotedContent false rest).map fun content => byteSize content + 2) := by
  have hbyte : (utf8 (seen ++ '"' :: rest))[byteSize seen]? = some 34 :=
    utf8_getElem? seen '"' rest '"'.utf8Size_pos
  have hslice : slice (seen ++ '"' :: rest) (byteSize seen) (byteSize (seen ++ '"' :: rest)) =
      .ok ('"' :: rest) :=
    StandsAt.slice_eq ⟨seen, [], by simp, rfl⟩ (by rw [byteSize_append])
  rw [quotedBytesAt, if_pos hbyte, hslice]
  exact quotedBytes_eq rest

/-- A string that is closed is passed over with the rest of the search behind it. -/
theorem findClose_string {content rest : List Char} (hquote : IsQuotable content) (seen : List Char)
    (hnext : findClose (seen ++ '"' :: (content ++ ['"']) ++ rest) closer
        (byteSize (seen ++ '"' :: (content ++ ['"']))) =
      .ok ((bodyBefore closer 0 rest).map fun body =>
        byteSize (seen ++ '"' :: (content ++ ['"'])) + byteSize body)) :
    findClose (seen ++ '"' :: (content ++ '"' :: rest)) closer (byteSize seen) =
      .ok ((bodyBefore closer 0 ('"' :: (content ++ '"' :: rest))).map fun body =>
        byteSize seen + byteSize body) := by
  have hquoted := quotedBytesAt_quote seen (content ++ '"' :: rest)
  rw [hquote.quotedContent, Option.map_some] at hquoted
  have hindex : byteSize seen < (utf8 (seen ++ '"' :: (content ++ '"' :: rest))).length := by
    have hpos := '"'.utf8Size_pos
    rw [length_utf8, byteSize_append, byteSize]
    omega
  have hsize : byteSize (seen ++ '"' :: (content ++ ['"'])) = byteSize seen + (byteSize content + 2) := by
    simp only [byteSize_append, byteSize, utf8Size_quote]
    omega
  have hsplit : seen ++ '"' :: (content ++ ['"']) ++ rest = seen ++ '"' :: (content ++ '"' :: rest) := by
    simp
  rw [hsplit, hsize] at hnext
  rw [findClose, if_pos hindex, hquoted, bodyBefore_quoted hquote, Option.map_map]
  simp only [bind, Except.bind]
  rw [hnext]
  congr 2
  funext body
  simp only [Function.comp_apply, byteSize, byteSize_append, utf8Size_quote]
  omega

include hcloser hsmall in
/-- Where no string starts that is closed, the walk stops at the marker or goes on behind the
character. -/
theorem findClose_step {char : Char} {rest : List Char}
    (hnone : ¬StartsString (char :: rest)) (seen : List Char) :
    findClose (seen ++ char :: rest) closer (byteSize seen) =
      if closer.isPrefixOf (char :: rest) then .ok (some (byteSize seen))
      else findClose (seen ++ char :: rest) closer (byteSize seen + char.utf8Size) := by
  by_cases hchar : char.toNat ≤ 127
  · refine findClose_small hsmall hchar seen rest ?_
    by_cases hquote : char = '"'
    · subst hquote
      rw [quotedBytesAt_quote]
      cases hcontent : quotedContent false rest with
      | none => rfl
      | some content =>
        obtain ⟨hquotable, after, rfl⟩ := isQuotable_of_quotedContent hcontent
        exact absurd ⟨content, after, isQuotable_iff_guarded.1 hquotable, rfl⟩ hnone
    · exact quotedBytesAt_of_ne hquote seen rest
  · rw [findClose_large hcloser (by omega), if_neg]
    obtain ⟨more, rfl⟩ := List.head?_eq_some_iff.1 hcloser
    rw [List.isPrefixOf_iff_prefix, List.cons_prefix_cons]
    rintro ⟨rfl, -⟩
    exact hchar (by decide)

include hcloser hsmall in
/-- The walk over the bytes finds what the search over the characters finds. -/
theorem findClose_eq (seen text : List Char) :
    findClose (seen ++ text) closer (byteSize seen) =
      .ok ((bodyBefore closer 0 text).map fun body => byteSize seen + byteSize body) := by
  induction text using search_induction generalizing seen with
  | nil =>
    rw [List.append_nil, findClose, if_neg (by rw [length_utf8]; exact Nat.lt_irrefl _)]
    rfl
  | string content rest hcontent ih => exact findClose_string (isQuotable_iff_guarded.2 hcontent) seen (ih _)
  | step char rest hnone ih =>
    have hnext := ih (seen ++ [char])
    rw [List.append_assoc, List.singleton_append, byteSize_append, byteSize, byteSize, Nat.add_zero] at hnext
    rw [findClose_step hcloser hsmall hnone, hnext, bodyBefore_step hnone]
    split
    · rfl
    · rw [Option.map_map]
      congr 2
      funext body
      simp only [Function.comp_apply, byteSize, Nat.add_assoc]

end FindClose

/-! ### Tokens -/

theorem byteSize_braces : byteSize ['{', '{'] = 2 := by decide

theorem TagKind.closer_small (kind : TagKind) : ∀ char ∈ kind.closer, char.toNat ≤ 127 := by
  have hbrace : '}'.toNat ≤ 127 := by decide
  cases kind <;> simp only [TagKind.closer, List.forall_mem_cons, hbrace, List.not_mem_nil, false_implies,
    implies_true, and_true]

/-- The place of the first occurrence of a marker, counted from the start of a text. -/
def findText (marker text : List Char) : Option Nat :=
  (textBefore marker text).map byteSize

def lexComment (source : List Char) (start : Nat) : Checked (List Token × Nat) := do
  let body := start + 3
  let text ← slice source body (byteSize source)
  let closer := if ['-', '-'].isPrefixOf text then ['-', '-', '}', '}'] else ['}', '}']
  let text ← slice source body (byteSize source)
  match findText closer text with
  | none => refuseUnterminated source start
  | some index =>
    let stop := body + index + byteSize closer
    return ([⟨.comment, ⟨start, stop⟩⟩], stop)

def lexTag (source : List Char) (start : Nat) : Checked (List Token × Nat) := do
  let marked ← slice source (start + 2) (byteSize source)
  if marked.head? = some '!' then lexComment source start
  else
    let kind := (TagKind.ofText marked).1
    let body := if kind = .escaped then start + 2 else start + 3
    let text ← slice source body (byteSize source)
    match ← findClose text kind.closer 0 with
    | none => refuseUnterminated source start
    | some index =>
      let stop := body + index
      let next := stop + byteSize kind.closer
      return ([⟨.opener kind, ⟨start, body⟩⟩, ⟨.body, ⟨body, stop⟩⟩, ⟨.closer kind, ⟨stop, next⟩⟩], next)

/-- The tokens from a place to the end. A round that does not go forward would never end, which
counts as a panic as well. -/
def lexFrom (source : List Char) (place : Nat) : Checked (List Token) :=
  if place < byteSize source then do
    let rest ← slice source place (byteSize source)
    match findText ['{', '{'] rest with
    | none => return [⟨.text, ⟨place, byteSize source⟩⟩]
    | some index =>
      let start := place + index
      let text := if 0 < index then [⟨.text, ⟨place, start⟩⟩] else []
      let (tokens, next) ← lexTag source start
      if place < next then
        let more ← lexFrom source next
        return text ++ tokens ++ more
      else .error .panic
  else return []
termination_by byteSize source - place

/-- What a reader of tokens gives for the segment that starts at a place, if there is one. -/
def lexed (source : List Char) (start : Nat) : Option Segment → Checked (List Token × Nat)
  | some segment => .ok (Token.placed start segment.pieces, start + byteSize segment.raw)
  | none => .error (Fault.stop source ⟨.unterminatedTag, start⟩)

section LexTag

variable {source body : List Char} {start : Nat}

theorem lexComment_eq (hrest : slice source start (byteSize source) = .ok (['{', '{', '!'] ++ body)) :
    lexComment source start = lexed source start ((commentBody body).map .comment) := by
  have hsize : byteSize ['{', '{', '!'] = 3 := by decide
  have hslice : slice source (start + 3) (byteSize source) = .ok body := hsize ▸ slice_right hrest
  have hcloser : (if ['-', '-'].isPrefixOf body then ['-', '-', '}', '}'] else ['}', '}']) =
      commentCloser body := by
    rw [commentCloser]
    simp only [List.isPrefixOf_iff_prefix]
  have hbody := commentBody_eq body
  rw [lexComment, hslice]
  simp only [bind, Except.bind, hcloser, findText]
  cases hcontent : textBefore (commentCloser body) body with
  | none =>
    rw [hcontent, Option.map_none, Option.map_eq_none_iff] at hbody
    rw [hbody]
    exact refuseUnterminated_eq source start
  | some content =>
    rw [hcontent, Option.map_some] at hbody
    obtain ⟨inner, hinner, heq⟩ := Option.map_eq_some_iff.1 hbody
    have hraw : byteSize (Segment.comment inner).raw = 3 + byteSize content + byteSize (commentCloser body) := by
      rw [Segment.raw, List.append_assoc, heq, byteSize_append, byteSize_append, hsize, Nat.add_assoc]
    have hstop : start + 3 + byteSize content + byteSize (commentCloser body) =
        start + byteSize (Segment.comment inner).raw := by
      rw [hraw]
      omega
    rw [hinner]
    simp only [Option.map_some, hstop, lexed, Segment.pieces, Token.placed]
    rfl

theorem lexTag_opener {kind : TagKind} (hopens : kind.Opens body)
    (hrest : slice source start (byteSize source) = .ok (kind.opener ++ body)) :
    lexTag source start = lexed source start ((bodyBefore kind.closer 0 body).map (.tag kind)) := by
  have hopener : kind.opener = ['{', '{'] ++ kind.marker := rfl
  obtain ⟨hkind, hbang⟩ := TagKind.ofText_marker hopens
  have hmarked : slice source (start + 2) (byteSize source) = .ok (kind.marker ++ body) := by
    rw [hopener, List.append_assoc] at hrest
    exact byteSize_braces ▸ slice_right hrest
  have hplace : (if kind = .escaped then start + 2 else start + 3) = start + byteSize kind.opener := by
    cases kind <;> rfl
  have htext := slice_right hrest
  have hclose := findClose_eq kind.closer_head kind.closer_small [] body
  simp only [byteSize, List.nil_append, Nat.zero_add] at hclose
  rw [lexTag, hmarked]
  simp only [bind, Except.bind, hbang, if_false, hkind, hplace, htext, hclose]
  cases hinner : bodyBefore kind.closer 0 body with
  | none => exact refuseUnterminated_eq source start
  | some inner =>
    have hnext : start + byteSize kind.opener + byteSize inner + byteSize kind.closer =
        start + byteSize (Segment.tag kind inner).raw := by
      rw [Segment.raw, byteSize_append, byteSize_append]
      omega
    simp only [Option.map_some, lexed, ← hnext, Segment.pieces, Token.placed]
    rfl

theorem lexTag_eq (hbraces : ['{', '{'] <+: body) (hrest : slice source start (byteSize source) = .ok body) :
    lexTag source start = lexed source start (Segment.read? body) := by
  rcases start_cases body with hplain | ⟨after, rfl⟩ | ⟨kind, after, hopens, rfl⟩
  · exact absurd hbraces hplain
  · have hmarked : slice source (start + 2) (byteSize source) = .ok ('!' :: after) := by
      have hsplit : ['{', '{', '!'] ++ after = ['{', '{'] ++ '!' :: after := rfl
      rw [hsplit] at hrest
      exact byteSize_braces ▸ slice_right hrest
    rw [Segment.read?_bang, ← lexComment_eq hrest, lexTag, hmarked]
    rfl
  · rw [Segment.read?_opener hopens]
    exact lexTag_opener hopens hrest

end LexTag

theorem textBefore_braces (text : List Char) :
    (textBefore ['{', '{'] text = none ∧ BraceFree text) ∨
      ∃ rest, textBefore ['{', '{'] text = some (textBeforeTag text) ∧
        text = textBeforeTag text ++ '{' :: '{' :: rest := by
  cases hcontent : textBefore ['{', '{'] text with
  | none => exact .inl ⟨rfl, braceFree_iff.2 ((textBefore_eq_none_iff (by simp)).1 hcontent)⟩
  | some content =>
    refine .inr ?_
    induction text generalizing content with
    | nil => cases hcontent
    | cons char rest ih =>
      rw [textBefore] at hcontent
      rw [textBeforeTag]
      split at hcontent
      · next hbraces =>
        obtain ⟨rfl, hhead⟩ := braces_prefix_cons.1 (List.isPrefixOf_iff_prefix.1 hbraces)
        obtain ⟨after, rfl⟩ := List.head?_eq_some_iff.1 hhead
        obtain rfl := Option.some.inj hcontent
        exact ⟨after, rfl, rfl⟩
      · next hplain =>
        obtain ⟨inner, hinner, rfl⟩ := Option.map_eq_some_iff.1 hcontent
        obtain ⟨after, hbefore, hsplit⟩ := ih inner hinner
        rw [if_neg fun h => hplain (List.isPrefixOf_iff_prefix.2 (braces_prefix_cons.2 h)), Option.some.inj hbefore]
        exact ⟨after, rfl, congrArg (char :: ·) hsplit⟩

def tokensOf (place : Nat) (text : List Char) : Except Fault (List Token) :=
  (scan Segment.step 0 place text).all.map fun row => Token.placed place (row.flatMap Segment.pieces)

theorem tokens_eq_tokensOf (source : String) :
    tokens source = (tokensOf 0 source.toList).mapError (·.inSource source.toList) := by
  rw [tokens, segments, tokensOf]
  cases (scan Segment.step 0 0 source.toList).all <;> rfl

theorem tokensOf_read {segment : Segment} {rest : List Char}
    (h : Segment.read? (segment.raw ++ rest) = some segment) (place : Nat) :
    tokensOf place (segment.raw ++ rest) = (tokensOf (place + byteSize segment.raw) rest).map
      (Token.placed place segment.pieces ++ ·) := by
  have hplaced := Token.placed_append place segment.pieces
  rw [Segment.flatMap_pieces] at hplaced
  rw [tokensOf, tokensOf, scan_segment h, Scanned.add, Scanned.all, Scanned.all]
  cases (scan Segment.step 0 (place + byteSize segment.raw) rest).failure with
  | some fault => rfl
  | none =>
    refine congrArg Except.ok ?_
    exact hplaced _

theorem tokensOf_unread {text : List Char} (hne : text ≠ []) (h : Segment.read? text = none) (place : Nat) :
    tokensOf place text = .error ⟨.unterminatedTag, place⟩ := by
  obtain ⟨char, rest, rfl⟩ := List.exists_cons_of_ne_nil hne
  rw [tokensOf, scan, Segment.step_eq, h]
  rfl

theorem tokensOf_text {content rest : List Char} (h : textBeforeTag (content ++ rest) = content)
    (place : Nat) :
    tokensOf place (content ++ rest) = (tokensOf (place + byteSize content) rest).map
      ((if 0 < byteSize content then [⟨.text, ⟨place, place + byteSize content⟩⟩] else []) ++ ·) := by
  cases content with
  | nil =>
    simp only [byteSize, Nat.lt_irrefl, if_false, List.nil_append, Nat.add_zero]
    cases tokensOf place rest <;> rfl
  | cons char content =>
    have hpos := char.utf8Size_pos
    have hread : Segment.read? ((Segment.text (char :: content)).raw ++ rest) =
        some (.text (char :: content)) := by
      rw [Segment.raw]
      rw [List.cons_append, textBeforeTag] at h
      split at h
      · cases h
      · next hplain => rw [List.cons_append, Segment.read?, if_neg hplain, (List.cons.inj h).2]
    rw [if_pos (by rw [byteSize]; omega)]
    exact tokensOf_read hread place

section LexFrom

variable {source text : List Char} {place : Nat}

/-- A tag is refused, or its tokens are the first ones and the others start behind it. -/
theorem lexTag_cases (hbraces : ['{', '{'] <+: text)
    (hrest : slice source place (byteSize source) = .ok text) :
    (∃ fault : Fault, lexTag source place = .error (fault.stop source) ∧
      tokensOf place text = .error fault ∧ IsBoundary source fault.place) ∨
    ∃ found next rest, lexTag source place = .ok (found, next) ∧
      tokensOf place text = (tokensOf next rest).map (found ++ ·) ∧
      slice source next (byteSize source) = .ok rest ∧ place < next := by
  have hne : text ≠ [] := by
    rintro rfl
    simp at hbraces
  rw [lexTag_eq hbraces hrest]
  cases hread : Segment.read? text with
  | none => exact .inl ⟨_, rfl, tokensOf_unread hne hread place, (slice_bounds hrest).start⟩
  | some segment =>
    obtain ⟨rest, rfl⟩ := Segment.exists_of_read hread
    have hraw : 0 < byteSize segment.raw := byteSize_pos (Segment.raw_ne_nil_of_read hread)
    exact .inr ⟨_, _, rest, rfl, tokensOf_read hread place, slice_right hrest, by omega⟩

theorem lexFrom_agrees (hrest : slice source place (byteSize source) = .ok text) :
    Agrees source Eq (lexFrom source place) (tokensOf place text) := by
  induction hsize : byteSize source - place using Nat.strong_induction_on generalizing place text with
  | _ size ih =>
    have hend := (slice_eq_ok_iff.1 hrest).2
    rcases eq_or_ne text [] with rfl | hne
    · rw [lexFrom, if_neg (by rw [hend, byteSize]; omega)]
      exact .done rfl
    · have hpos : 0 < byteSize text := byteSize_pos hne
      rw [lexFrom, if_pos (by omega), hrest]
      rcases textBefore_braces text with ⟨hnone, hfree⟩ | ⟨rest, hsome, hsplit⟩
      · have htokens : tokensOf place (text ++ []) = _ := tokensOf_text (by rwa [List.append_nil]) place
        rw [List.append_nil, if_pos hpos] at htokens
        simp only [bind, Except.bind, findText, hnone, Option.map_none, htokens, ← hend]
        exact .done rfl
      · have htokens : tokensOf place (textBeforeTag text ++ '{' :: '{' :: rest) = _ :=
          tokensOf_text (by rw [← hsplit]) place
        simp only [bind, Except.bind, findText, hsome, Option.map_some]
        generalize textBeforeTag text = content at *
        subst hsplit
        have hbraces : ['{', '{'] <+: '{' :: '{' :: rest := ⟨rest, rfl⟩
        rw [htokens]
        rcases lexTag_cases hbraces (slice_right hrest) with
          ⟨fault, htag, hfault, hplace⟩ | ⟨found, next, after, htag, hfound, hafter, hgo⟩
        · rw [htag, hfault]
          exact .refused hplace
        · have hnext := ih (byteSize source - next) (by omega) hafter rfl
          rw [htag, hfound]
          simp only
          rw [if_pos (by omega)]
          generalize lexFrom source next = checked, tokensOf next after = reader at hnext
          cases hnext with
          | done hresult => exact .done (by rw [hresult, List.append_assoc])
          | refused hplace => exact .refused hplace

end LexFrom

end Stencil
