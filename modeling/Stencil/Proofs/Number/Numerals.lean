import Stencil.Number.Numeral
import Stencil.Proofs.Markup.Paths
import Stencil.Proofs.Number.Rounding
import Mathlib.Algebra.Order.Field.Rat
import Mathlib.Tactic.FieldSimp
import Mathlib.Tactic.NormNum
import Mathlib.Tactic.Positivity

/-!
# The numbers that numerals denote

A numeral is a sign, digits, and perhaps a point with further digits. It denotes a rational number,
whatever the number it is read as. A numeral with a superfluous zero in front is read as none at
all. A whole numeral of 64 bits is read as its value and written as it was, unless it is minus zero.
A numeral of up to fifteen digits is read as zero exactly if it denotes zero.
-/

namespace Stencil

def IsDigits (text : List Char) : Prop :=
  text ≠ [] ∧ ∀ char ∈ text, char.isDigit = true

instance (text : List Char) : Decidable (IsDigits text) :=
  decidable_of_iff (text ≠ [] ∧ text.all Char.isDigit = true) (by simp [IsDigits])

theorem isDigits_zero : IsDigits ['0'] := by
  decide

/-- The parts of a text that is written like a number. -/
structure Numeral where
  negative : Bool
  whole : List Char
  /-- The digits behind the point, if there is one -/
  fraction : Option (List Char)
  isDigits_whole : IsDigits whole
  isDigits_fraction : ∀ digits ∈ fraction, IsDigits digits

namespace Numeral

/-- The digits behind the point, of which there may be none. -/
def places (numeral : Numeral) : List Char :=
  numeral.fraction.getD []

def signText (numeral : Numeral) : List Char :=
  if numeral.negative then ['-'] else []

def fractionText (numeral : Numeral) : List Char :=
  match numeral.fraction with
  | none => []
  | some digits => '.' :: digits

def text (numeral : Numeral) : List Char :=
  numeral.signText ++ (numeral.whole ++ numeral.fractionText)

def value (numeral : Numeral) : ℚ :=
  (if numeral.negative then -1 else 1) *
    (digitsValue numeral.whole + digitsValue numeral.places / 10 ^ numeral.places.length)

/-- A zero stands in front of other digits of the whole part. -/
def Padded (numeral : Numeral) : Prop :=
  1 < numeral.whole.length ∧ numeral.whole.head? = some '0'

instance (numeral : Numeral) : Decidable numeral.Padded :=
  inferInstanceAs (Decidable (_ ∧ _))

end Numeral

/-! ### Rows of digits -/

theorem exists_digitChar {char : Char} (h : char.isDigit = true) : ∃ digit < 10, char = digit.digitChar := by
  obtain ⟨hlow, hhigh⟩ := Char.isDigit_iff_toNat.1 h
  have hlow : 48 ≤ char.toNat := hlow
  have hhigh : char.toNat ≤ 57 := hhigh
  refine ⟨char.toNat - 48, by omega, Char.toNat_inj.1 ?_⟩
  rw [Nat.toNat_digitChar_of_lt_ten (by omega)]
  omega

theorem toDigits_ofDigitChars {digits : List Char} (hdigits : ∀ char ∈ digits, char.isDigit = true) {first : Nat}
    (hfirst : 0 < first) :
    Nat.toDigits 10 (Nat.ofDigitChars 10 digits first) = Nat.toDigits 10 first ++ digits := by
  induction digits generalizing first with
  | nil => rw [Nat.ofDigitChars_nil, List.append_nil]
  | cons char digits ih =>
    obtain ⟨hchar, hrest⟩ := List.forall_mem_cons.1 hdigits
    obtain ⟨digit, hdigit, rfl⟩ := exists_digitChar hchar
    rw [Nat.ofDigitChars_cons_digitChar_of_lt_ten hdigit, ih hrest (by omega),
      ← Nat.toDigits_append_toDigits (by decide) hfirst hdigit, Nat.toDigits_of_lt_base hdigit,
      List.append_assoc, List.singleton_append]

/-- Digits without a superfluous zero are those of their value. -/
theorem toDigits_digitsValue {digits : List Char} (h : IsDigits digits)
    (hpadded : ¬(1 < digits.length ∧ digits.head? = some '0')) :
    Nat.toDigits 10 (digitsValue digits) = digits := by
  obtain ⟨hne, hall⟩ := h
  obtain ⟨char, rest, rfl⟩ := List.exists_cons_of_ne_nil hne
  obtain ⟨hchar, hrest⟩ := List.forall_mem_cons.1 hall
  obtain ⟨digit, hdigit, rfl⟩ := exists_digitChar hchar
  rw [digitsValue, Nat.ofDigitChars_cons_digitChar_of_lt_ten hdigit, Nat.mul_zero, Nat.zero_add]
  rcases Nat.eq_zero_or_pos digit with rfl | hpos
  · have hshort : rest = [] := by
      rcases rest with - | ⟨second, rest⟩
      · rfl
      · exact absurd ⟨by simp, rfl⟩ hpadded
    rw [hshort]
    rfl
  · rw [toDigits_ofDigitChars hrest hpos, Nat.toDigits_of_lt_base hdigit, List.singleton_append]

theorem ofDigitChars_lt {digits : List Char} (hdigits : ∀ char ∈ digits, char.isDigit = true) (first : Nat) :
    Nat.ofDigitChars 10 digits first < (first + 1) * 10 ^ digits.length := by
  induction digits generalizing first with
  | nil => simp [Nat.ofDigitChars_nil]
  | cons char digits ih =>
    obtain ⟨hchar, hrest⟩ := List.forall_mem_cons.1 hdigits
    obtain ⟨digit, hdigit, rfl⟩ := exists_digitChar hchar
    rw [Nat.ofDigitChars_cons_digitChar_of_lt_ten hdigit, List.length_cons]
    calc Nat.ofDigitChars 10 digits (10 * first + digit)
        < (10 * first + digit + 1) * 10 ^ digits.length := ih hrest _
      _ ≤ (first + 1) * 10 * 10 ^ digits.length := Nat.mul_le_mul_right _ (by omega)
      _ = (first + 1) * 10 ^ (digits.length + 1) := by rw [Nat.pow_succ', Nat.mul_assoc]

theorem digitsValue_lt {digits : List Char} (hdigits : ∀ char ∈ digits, char.isDigit = true) :
    digitsValue digits < 10 ^ digits.length := by
  simpa [digitsValue] using ofDigitChars_lt hdigits 0

theorem digitsValue_append (left right : List Char) :
    digitsValue (left ++ right) = 10 ^ right.length * digitsValue left + digitsValue right := by
  rw [digitsValue, Nat.ofDigitChars_append, Nat.ofDigitChars_eq_ofDigitChars_zero, digitsValue, digitsValue]

theorem le_ofDigitChars (digits : List Char) (first : Nat) : first ≤ Nat.ofDigitChars 10 digits first := by
  rw [Nat.ofDigitChars_eq_ofDigitChars_zero]
  exact (Nat.le_mul_of_pos_left first (Nat.pow_pos (by decide))).trans (Nat.le_add_right _ _)

theorem takeDigits_of_lt {digits : List Char} {first : Nat}
    (h : Nat.ofDigitChars 10 digits first < 0x10000000000000000) :
    takeDigits first digits = (Nat.ofDigitChars 10 digits first, []) := by
  induction digits generalizing first with
  | nil => rw [takeDigits, Nat.ofDigitChars_nil]
  | cons digit rest ih =>
    have hsplit : Nat.ofDigitChars 10 (digit :: rest) first =
        Nat.ofDigitChars 10 rest (Nat.ofDigitChars 10 [digit] first) := by
      rw [← Nat.ofDigitChars_append, List.singleton_append]
    rw [hsplit] at h ⊢
    rw [takeDigits]
    exact (if_pos ((le_ofDigitChars rest _).trans_lt h)).trans (ih h)

theorem Double.exists_ofDigits (negative : Bool) {whole fraction : List Char}
    (hbound : digitsValue (whole ++ fraction) < 10 ^ 15) (hplaces : 0 < fraction.length)
    (hfew : fraction.length ≤ 15) :
    ∃ double, ofDigits? negative whole fraction = some double ∧
      (double.isZero = true ↔ digitsValue (whole ++ fraction) = 0) := by
  have hsplit : digitsValue (whole ++ fraction) = Nat.ofDigitChars 10 fraction (digitsValue whole) :=
    Nat.ofDigitChars_append 0
  have hfirst : digitsValue whole < 0x10000000000000000 :=
    ((le_ofDigitChars fraction _).trans_eq hsplit.symm).trans_lt (hbound.trans (by decide))
  have hall : Nat.ofDigitChars 10 fraction (digitsValue whole) < 0x10000000000000000 :=
    (hsplit ▸ hbound).trans (by decide)
  have hparts : ofDigits? negative whole fraction =
      ofParts? negative (digitsValue (whole ++ fraction)) (-fraction.length) := by
    have hwhole : takeDigits 0 whole = (digitsValue whole, []) := takeDigits_of_lt hfirst
    simp only [ofDigits?, hwhole, takeDigits_of_lt hall, hsplit, List.length_nil, Nat.sub_zero]
    rw [Int.natCast_zero, Int.zero_sub]
  rw [hparts]
  exact exists_ofParts negative hbound hplaces hfew

/-! ### Texts of numerals -/

theorem signed_splitMinus (text : List Char) :
    (if (splitMinus text).1 then ['-'] else []) ++ (splitMinus text).2 = text := by
  unfold splitMinus
  split <;> rfl

theorem isNumeral_eq (text : List Char) :
    isNumeral text =
      (!((splitMinus text).2.takeWhile Char.isDigit).isEmpty &&
        match (splitMinus text).2.dropWhile Char.isDigit with
        | [] => true
        | '.' :: fraction => !fraction.isEmpty && fraction.all Char.isDigit
        | _ => false) := by
  fun_cases splitMinus text with
  | case1 rest => rfl
  | case2 text hsign =>
    unfold isNumeral
    split
    · next rest => exact absurd rfl (hsign rest)
    · rfl

namespace Numeral

variable (numeral : Numeral)

theorem isDigit_of_mem_places {char : Char} (h : char ∈ numeral.places) : char.isDigit = true := by
  rw [places] at h
  cases hfraction : numeral.fraction with
  | none => rw [hfraction] at h; cases h
  | some digits =>
    rw [hfraction] at h
    exact (numeral.isDigits_fraction digits hfraction).2 char h

theorem split_text :
    splitMinus numeral.text = (numeral.negative, numeral.whole ++ numeral.fractionText) ∧
      (numeral.whole ++ numeral.fractionText).takeWhile Char.isDigit = numeral.whole ∧
      (numeral.whole ++ numeral.fractionText).dropWhile Char.isDigit = numeral.fractionText := by
  obtain ⟨hne, hdigits⟩ := numeral.isDigits_whole
  refine ⟨?_, Word.takeWhile_append_stop hdigits ?_⟩
  · obtain ⟨char, rest, hwhole⟩ := List.exists_cons_of_ne_nil hne
    have hchar : char ≠ '-' := by
      rintro rfl
      exact absurd (hdigits '-' (hwhole ▸ List.mem_cons_self)) (by decide)
    rw [text, signText, hwhole]
    cases numeral.negative with
    | true => rfl
    | false =>
      show splitMinus (char :: (rest ++ numeral.fractionText)) = _
      rw [splitMinus]
      · rfl
      · simpa using hchar
  · intro char hchar
    rw [fractionText] at hchar
    cases hfraction : numeral.fraction with
    | none => rw [hfraction] at hchar; cases hchar
    | some digits =>
      rw [hfraction] at hchar
      obtain rfl := Option.some.inj hchar
      rfl

theorem isNumeral_text : isNumeral numeral.text = true := by
  obtain ⟨hsplit, htake, hdrop⟩ := numeral.split_text
  rw [isNumeral_eq, hsplit, htake, hdrop, Bool.and_eq_true, Bool.not_eq_true', List.isEmpty_eq_false_iff]
  refine ⟨numeral.isDigits_whole.1, ?_⟩
  rw [fractionText]
  cases hfraction : numeral.fraction with
  | none => rfl
  | some digits =>
    obtain ⟨hne, hdigits⟩ := numeral.isDigits_fraction digits hfraction
    show (!digits.isEmpty && digits.all Char.isDigit) = true
    rw [Bool.and_eq_true, Bool.not_eq_true', List.isEmpty_eq_false_iff, List.all_eq_true]
    exact ⟨hne, hdigits⟩

theorem ofNumeral?_text :
    Number.ofNumeral? numeral.text =
      if numeral.Padded then none
      else match numeral.fraction with
        | none => Number.ofWhole? numeral.negative numeral.whole
        | some digits => (Double.ofDigits? numeral.negative numeral.whole digits).map .double := by
  obtain ⟨hsplit, htake, hdrop⟩ := numeral.split_text
  rw [Number.ofNumeral?, hsplit]
  simp only [htake, hdrop]
  rw [fractionText]
  cases numeral.fraction <;> rfl

end Numeral

theorem exists_numeral {text : List Char} (h : isNumeral text = true) :
    ∃ numeral : Numeral, numeral.text = text := by
  rw [isNumeral_eq, Bool.and_eq_true, Bool.not_eq_true', List.isEmpty_eq_false_iff] at h
  obtain ⟨hne, h⟩ := h
  have hwhole : IsDigits ((splitMinus text).2.takeWhile Char.isDigit) :=
    ⟨hne, fun _ hchar => List.mem_takeWhile_imp hchar⟩
  have hrest : (splitMinus text).2.takeWhile Char.isDigit ++ (splitMinus text).2.dropWhile Char.isDigit =
      (splitMinus text).2 := List.takeWhile_append_dropWhile
  split at h
  · next hdrop =>
    refine ⟨⟨(splitMinus text).1, _, none, hwhole, by simp⟩, ?_⟩
    rw [hdrop] at hrest
    exact (congrArg _ hrest).trans (signed_splitMinus text)
  · next fraction hdrop =>
    rw [Bool.and_eq_true, Bool.not_eq_true', List.isEmpty_eq_false_iff, List.all_eq_true] at h
    refine ⟨⟨(splitMinus text).1, _, some fraction, hwhole, ?_⟩, ?_⟩
    · rintro _ ⟨⟩
      exact h
    · rw [hdrop] at hrest
      exact (congrArg _ hrest).trans (signed_splitMinus text)
  · cases h

/-! ### What a numeral is read as -/

namespace Numeral

variable {numeral : Numeral}

def integer (numeral : Numeral) : Int :=
  if numeral.negative then -(digitsValue numeral.whole : Int) else digitsValue numeral.whole

theorem value_eq_integer (hwhole : numeral.fraction = none) : numeral.value = numeral.integer := by
  rw [value, integer, places, hwhole]
  cases numeral.negative <;> simp [digitsValue, Nat.ofDigitChars_nil]

theorem value_eq_zero_iff : numeral.value = 0 ↔ digitsValue (numeral.whole ++ numeral.places) = 0 := by
  have hsign : (if numeral.negative then -1 else 1 : ℚ) ≠ 0 := by split <;> norm_num
  have hwhole : (0 : ℚ) ≤ digitsValue numeral.whole := Nat.cast_nonneg _
  have hplaces : (0 : ℚ) ≤ digitsValue numeral.places / 10 ^ numeral.places.length := by positivity
  rw [value, mul_eq_zero_iff_left hsign, add_eq_zero_iff_of_nonneg hwhole hplaces, div_eq_zero_iff,
    digitsValue_append, Nat.add_eq_zero_iff, Nat.mul_eq_zero]
  simp

theorem ofWhole?_of_fits (hminus : ¬(numeral.negative = true ∧ digitsValue numeral.whole = 0))
    (hfits : Number.fits64 numeral.integer = true) :
    Number.ofWhole? numeral.negative numeral.whole = some (.integer numeral.integer) := by
  rw [Number.ofWhole?, if_neg hminus]
  exact if_pos hfits

theorem writeInt_integer (hminus : ¬(numeral.negative = true ∧ digitsValue numeral.whole = 0)) :
    writeInt numeral.integer = numeral.signText ++ Nat.toDigits 10 (digitsValue numeral.whole) := by
  rw [writeInt, integer, signText]
  cases hnegative : numeral.negative with
  | false =>
    have hsign : ¬(digitsValue numeral.whole : Int) < 0 := by omega
    exact if_neg hsign
  | true =>
    have hsign : -(digitsValue numeral.whole : Int) < 0 := by
      have hsize : digitsValue numeral.whole ≠ 0 := fun hsize => hminus ⟨hnegative, hsize⟩
      omega
    rw [if_pos rfl, if_pos hsign, Int.natAbs_neg, Int.natAbs_natCast]
    rfl

/-- A whole numeral of 64 bits is read as its value and is the text of it, unless it is minus
zero. -/
theorem ofNumeral?_integer (hwhole : numeral.fraction = none) (hpadded : ¬numeral.Padded)
    (hzero : numeral.text ≠ ['-', '0']) (hfits : Number.fits64 numeral.integer = true) :
    Number.ofNumeral? numeral.text = some (.integer numeral.integer) ∧
      writeInt numeral.integer = numeral.text := by
  have hdigits := toDigits_digitsValue numeral.isDigits_whole hpadded
  have htext : numeral.text = numeral.signText ++ numeral.whole := by
    rw [text, fractionText, hwhole, List.append_nil]
  have hminus : ¬(numeral.negative = true ∧ digitsValue numeral.whole = 0) := by
    rintro ⟨hnegative, hsize⟩
    rw [hsize] at hdigits
    apply hzero
    rw [htext, signText, hnegative, ← hdigits]
    rfl
  constructor
  · rw [ofNumeral?_text, if_neg hpadded, hwhole]
    exact ofWhole?_of_fits hminus hfits
  · rw [writeInt_integer hminus, hdigits, htext]

theorem exists_ofWhole (hbound : digitsValue numeral.whole < 10 ^ 15) :
    ∃ number, Number.ofWhole? numeral.negative numeral.whole = some number ∧
      (number.isZero = true ↔ digitsValue numeral.whole = 0) := by
  by_cases hminus : numeral.negative = true ∧ digitsValue numeral.whole = 0
  · refine ⟨.double (.zero true), ?_, iff_of_true rfl hminus.2⟩
    rw [Number.ofWhole?, if_pos hminus]
  · have hfits : Number.fits64 numeral.integer = true := by
      rw [Number.fits64, integer, decide_eq_true_iff]
      split <;> omega
    refine ⟨_, ofWhole?_of_fits hminus hfits, ?_⟩
    show (numeral.integer == 0) = true ↔ _
    rw [beq_iff_eq, integer]
    split <;> omega

/-- A numeral of up to fifteen digits is read as zero exactly if that is what it denotes. -/
theorem exists_ofNumeral (hpadded : ¬numeral.Padded) (hfew : (numeral.whole ++ numeral.places).length ≤ 15) :
    ∃ number, Number.ofNumeral? numeral.text = some number ∧ (number.isZero = true ↔ numeral.value = 0) := by
  have hbound : digitsValue (numeral.whole ++ numeral.places) < 10 ^ 15 := by
    refine (digitsValue_lt ?_).trans_le (Nat.pow_le_pow_right (by decide) hfew)
    exact List.forall_mem_append.2 ⟨numeral.isDigits_whole.2, fun _ => numeral.isDigit_of_mem_places⟩
  rw [ofNumeral?_text, if_neg hpadded, value_eq_zero_iff]
  rw [places] at hbound hfew ⊢
  cases hfraction : numeral.fraction with
  | none =>
    rw [hfraction, Option.getD_none, List.append_nil] at hbound
    rw [Option.getD_none, List.append_nil]
    exact exists_ofWhole hbound
  | some digits =>
    rw [hfraction, Option.getD_some] at hbound hfew
    have hplaces : 0 < digits.length := List.length_pos_iff.2 (numeral.isDigits_fraction digits hfraction).1
    have hlength : digits.length ≤ 15 := by
      rw [List.length_append] at hfew
      omega
    obtain ⟨double, hdouble, hzero⟩ := Double.exists_ofDigits numeral.negative hbound hplaces hlength
    exact ⟨.double double, congrArg (Option.map Number.double) hdouble, hzero⟩

end Numeral

end Stencil
