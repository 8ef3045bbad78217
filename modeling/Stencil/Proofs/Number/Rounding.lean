import Mathlib.Algebra.GroupWithZero.Nat
import Stencil.Number.Double

/-!
# Rounding to doubles

Rounding a quotient moves it by less than one. A quotient that is neither too small nor too large
for a full significand therefore has a nearest double, which is larger or smaller by less than a
factor of two. That bound outlasts the two roundings by which a decimal is read: up to fifteen
digits denote a double wherever their point stands, and it is zero only if they are.
-/

namespace Stencil

theorem le_roundQuotient (numerator denominator : Nat) :
    numerator / denominator ≤ roundQuotient numerator denominator := by
  rw [roundQuotient]
  split
  · exact Nat.le_refl _
  · exact Nat.le_succ _

theorem roundQuotient_le (numerator denominator : Nat) :
    roundQuotient numerator denominator ≤ numerator / denominator + 1 := by
  rw [roundQuotient]
  split
  · exact Nat.le_succ _
  · exact Nat.le_refl _

theorem significand_bounds {size : Nat} (h : 2 ^ 52 ≤ size) :
    2 ^ 52 ≤ size / 2 ^ (size.log2 - 52) ∧ size / 2 ^ (size.log2 - 52) < 2 ^ 53 := by
  have hne : size ≠ 0 := by omega
  have hlog : 52 ≤ size.log2 := (Nat.le_log2 hne).2 h
  have hpos : 0 < 2 ^ (size.log2 - 52) := Nat.two_pow_pos _
  constructor
  · rw [Nat.le_div_iff_mul_le hpos, ← Nat.pow_add, Nat.add_sub_cancel' hlog]
    exact Nat.log2_self_le hne
  · rw [Nat.div_lt_iff_lt_mul hpos, ← Nat.pow_add]
    have hexponent : 53 + (size.log2 - 52) = size.log2 + 1 := by omega
    rw [hexponent]
    exact Nat.lt_log2_self

/-- A quotient that is not far from one has a full significand, once it is moved far enough to the
left. -/
theorem shifted_bounds {numerator denominator slack shift : Nat} (hpos : 0 < denominator)
    (hlow : denominator ≤ numerator * 2 ^ slack) (hhigh : numerator < denominator * 2 ^ slack)
    (hshift : 52 + slack ≤ shift) :
    2 ^ 52 ≤ numerator * Nat.pow 2 shift / denominator ∧
      numerator * Nat.pow 2 shift / denominator < 2 ^ (slack + shift) := by
  rw [Nat.pow_eq, Nat.le_div_iff_mul_le hpos, Nat.div_lt_iff_lt_mul hpos]
  constructor
  · calc 2 ^ 52 * denominator ≤ 2 ^ 52 * (numerator * 2 ^ slack) := Nat.mul_le_mul_left _ hlow
      _ = numerator * 2 ^ (52 + slack) := by rw [Nat.pow_add, Nat.mul_left_comm]
      _ ≤ numerator * 2 ^ shift := Nat.mul_le_mul_left _ (Nat.pow_le_pow_right (by decide) hshift)
  · calc numerator * 2 ^ shift < denominator * 2 ^ slack * 2 ^ shift :=
          Nat.mul_lt_mul_of_pos_right hhigh (Nat.two_pow_pos _)
      _ = 2 ^ (slack + shift) * denominator := by rw [Nat.mul_assoc, ← Nat.pow_add, Nat.mul_comm]

theorem roundQuotient_bounds {numerator denominator : Nat} (hpos : 0 < denominator)
    (hle : denominator ≤ numerator) :
    numerator ≤ 2 * (denominator * roundQuotient numerator denominator) ∧
      denominator * roundQuotient numerator denominator ≤ 2 * numerator := by
  have hone : 1 ≤ numerator / denominator := (Nat.one_le_div_iff hpos).2 hle
  have hbelow : denominator * (numerator / denominator) ≤ numerator := Nat.mul_div_le _ _
  have habove : numerator < denominator * (numerator / denominator + 1) := Nat.lt_mul_div_succ _ hpos
  have hlow := Nat.mul_le_mul_left denominator (le_roundQuotient numerator denominator)
  have hhigh := Nat.mul_le_mul_left denominator (roundQuotient_le numerator denominator)
  have hstep : denominator ≤ denominator * (numerator / denominator) := Nat.le_mul_of_pos_right _ hone
  rw [Nat.mul_succ] at habove hhigh
  omega

namespace Double

/-- A double is within a factor of two of a quotient, and not zero. -/
structure Near (double : Double) (numerator denominator : Nat) : Prop where
  pos : 0 < double.steps
  le : numerator * Nat.pow 2 1074 ≤ 2 * (denominator * double.steps)
  ge : denominator * double.steps ≤ 2 * (numerator * Nat.pow 2 1074)

theorem isZero_eq_false {double : Double} (h : 0 < double.steps) : double.isZero = false := by
  refine beq_eq_false_iff_ne.2 fun hzero => ?_
  rw [steps, hzero, Nat.zero_mul] at h
  exact Nat.lt_irrefl 0 h

/-- A significand that has all its bits, or one more by rounding, is that of a double. -/
theorem exists_ofRounded (negative : Bool) {significand scale : Nat} (hlow : 2 ^ 52 ≤ significand)
    (hhigh : significand ≤ 2 ^ 53) (hscale : scale < 2045) :
    ∃ double, ofRounded? negative significand scale = some double ∧
      double.steps = significand * Nat.pow 2 scale := by
  unfold ofRounded?
  rcases Nat.lt_or_eq_of_le hhigh with hless | rfl
  · have hcanonical : IsCanonical significand scale := ⟨hless, Nat.le_of_lt hscale, .inl hlow⟩
    exact ⟨_, dif_pos hcanonical, rfl⟩
  · have hcanonical : ¬IsCanonical (2 ^ 53) scale := fun h => Nat.lt_irrefl _ h.1
    rw [dif_neg hcanonical, dif_pos ⟨rfl, hscale⟩]
    refine ⟨_, rfl, ?_⟩
    rw [Nat.pow_eq]
    show 2 ^ 52 * 2 ^ (scale + 1) = 2 ^ 53 * 2 ^ scale
    rw [← Nat.pow_add, ← Nat.pow_add, Nat.add_left_comm, Nat.add_comm]

theorem exists_shift (negative : Bool) (numerator denominator : Nat) :
    ∃ shift scaled scale, shift = 1074 ∧ scaled = numerator * Nat.pow 2 shift ∧
      scale = (scaled / denominator).log2 - 52 ∧
      ofQuotient? negative numerator denominator =
        ofRounded? negative (roundQuotient scaled (denominator * Nat.pow 2 scale)) scale :=
  ⟨1074, _, _, rfl, rfl, rfl, rfl⟩

/-- A quotient that is not far from one has a nearest double, and it is near. -/
theorem exists_ofQuotient (negative : Bool) {numerator denominator : Nat} (slack : Nat)
    (hpos : 0 < denominator) (hlow : denominator ≤ numerator * 2 ^ slack)
    (hhigh : numerator < denominator * 2 ^ slack) (hslack : slack ≤ 1000) :
    ∃ double, ofQuotient? negative numerator denominator = some double ∧
      double.Near numerator denominator := by
  obtain ⟨shift, scaled, scale, hshift, hscaled, hscale, hquotient⟩ :=
    exists_shift negative numerator denominator
  have hfar : 52 + slack ≤ shift := by omega
  obtain ⟨hleast, hmost⟩ := shifted_bounds hpos hlow hhigh hfar
  rw [← hscaled] at hleast hmost
  have hlog : (scaled / denominator).log2 < slack + shift := (Nat.log2_lt (by omega)).2 hmost
  obtain ⟨hfull, hbits⟩ := significand_bounds hleast
  rw [← hscale, Nat.div_div_eq_div_mul, ← Nat.pow_eq] at hfull hbits
  have hbelow := le_roundQuotient scaled (denominator * Nat.pow 2 scale)
  have habove := roundQuotient_le scaled (denominator * Nat.pow 2 scale)
  obtain ⟨double, hdouble, hsteps⟩ :=
    exists_ofRounded negative (Nat.le_trans hfull hbelow) (Nat.le_trans habove hbits) (by omega : scale < 2045)
  have hunit : 0 < denominator * Nat.pow 2 scale := Nat.mul_pos hpos (Nat.two_pow_pos _)
  have hle : denominator * Nat.pow 2 scale ≤ scaled :=
    (Nat.one_le_div_iff hunit).1 (Nat.le_trans (by decide) hfull)
  obtain ⟨hlower, hupper⟩ := roundQuotient_bounds hunit hle
  rw [Nat.mul_assoc, Nat.mul_comm (Nat.pow 2 scale), ← hsteps, hscaled] at hlower hupper
  subst hshift
  refine ⟨double, hquotient.trans hdouble, ?_, hlower, hupper⟩
  rw [hsteps]
  exact Nat.mul_pos (Nat.lt_of_lt_of_le (Nat.two_pow_pos 52) (Nat.le_trans hfull hbelow)) (Nat.two_pow_pos _)

theorem exists_ofNat (negative : Bool) {size : Nat} (hpos : 0 < size) (hfew : size < 2 ^ 50) :
    ∃ double, ofQuotient? negative size 1 = some double ∧ double.Near size 1 := by
  refine exists_ofQuotient negative 50 Nat.one_pos ?_ ?_ (by decide)
  · exact Nat.mul_pos hpos (by decide)
  · rwa [Nat.one_mul]

/-- A double near a number of up to fifty bits is not much larger than one near another number. -/
theorem Near.steps_lt {left right : Double} {size other : Nat} (hleft : left.Near size 1)
    (hright : right.Near other 1) (hfew : size < 2 ^ 50) (hother : 0 < other) :
    left.steps < right.steps * 2 ^ 53 := by
  obtain ⟨-, -, hupper⟩ := hleft
  obtain ⟨hpos, hlower, -⟩ := hright
  generalize Nat.pow 2 1074 = unit at hupper hlower
  rw [Nat.one_mul] at hupper hlower
  have hunits : size * unit ≤ 2 ^ 50 * (other * unit) :=
    Nat.mul_le_mul (Nat.le_of_lt hfew) (Nat.le_mul_of_pos_left unit hother)
  omega

theorem exists_div {left right : Double} {size divisor : Nat} (hleft : left.Near size 1)
    (hright : right.Near divisor 1) (hsize : 0 < size) (hfew : size < 2 ^ 50) (hdivisor : 0 < divisor)
    (hsmall : divisor < 2 ^ 50) :
    ∃ double, left.div? right = some double ∧ double.isZero = false := by
  have hzero : ¬right.isZero = true := by rw [isZero_eq_false hright.pos]; exact Bool.false_ne_true
  obtain ⟨double, hdouble, hnear⟩ :=
    exists_ofQuotient (left.negative != right.negative) 53 hright.pos
      (Nat.le_of_lt (hright.steps_lt hleft hsmall hsize)) (hleft.steps_lt hright hfew hdivisor) (by decide)
  exact ⟨double, by rw [div?, if_neg hzero, hdouble], isZero_eq_false hnear.pos⟩

/-- Up to fifteen digits of which up to fifteen stand behind the point denote a double, and it is
zero only if they are. -/
theorem exists_ofParts (negative : Bool) {significand places : Nat} (hbound : significand < 10 ^ 15)
    (hplaces : 0 < places) (hfew : places ≤ 15) :
    ∃ double, ofParts? negative significand (-places) = some double ∧
      (double.isZero = true ↔ significand = 0) := by
  rw [ofParts?]
  rcases Nat.eq_zero_or_pos significand with rfl | hpos
  · exact ⟨zero negative, if_pos rfl, iff_of_true rfl rfl⟩
  · have hfraction : ¬(0 : Int) ≤ -places := by omega
    have hpast : (-(-places : Int)).toNat - 1 = places - 1 := by omega
    have hblocks : (places - 1) / 308 = 0 := by omega
    have hrest : (places - 1) % 308 + 1 = places := by omega
    have hfit : significand < 2 ^ 50 := Nat.lt_trans hbound (by decide)
    have hpower : 10 ^ places < 2 ^ 50 :=
      Nat.lt_of_le_of_lt (Nat.pow_le_pow_right (by decide) hfew) (by decide)
    obtain ⟨whole, hwhole, hnear⟩ := exists_ofNat negative hpos hfit
    obtain ⟨divisor, hdivisor, hten⟩ := exists_ofNat false (Nat.pow_pos (by decide)) hpower
    obtain ⟨double, hdouble, hnonzero⟩ :=
      exists_div hnear hten hpos hfit (Nat.pow_pos (by decide)) hpower
    refine ⟨double, ?_, iff_of_false (by rw [hnonzero]; exact Bool.false_ne_true) (Nat.ne_of_gt hpos)⟩
    rw [if_neg (Nat.ne_of_gt hpos)]
    simp only [hwhole, Option.bind_eq_bind, Option.bind_some, if_neg hfraction, hpast, hblocks, hrest,
      divideBlocks?, tenPower?, Nat.pow_eq, hdivisor, hdouble]

end Double

end Stencil
