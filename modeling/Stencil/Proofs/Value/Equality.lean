import Mathlib.Data.List.Forall2
import Stencil.Proofs.Table
import Stencil.Value.Text

/-!
# Equality of values

Values are equal if they are of one kind and have equal parts in the same places. Of the numbers
only the two zeros among the doubles are equal without being the same, and nothing but their signs
tells them apart. Equality is an equivalence if it is one for the handles of functions. What a
template can find out about a value, its members, its truth and its text, is the same for equal
values.
-/

namespace Stencil

/-! ### Numbers -/

theorem Double.eq_zero_of_isZero {double : Double} (h : double.isZero = true) : double = .zero double.negative := by
  obtain ⟨negative, significand, scale, hcanonical⟩ := double
  obtain rfl : significand = 0 := beq_iff_eq.1 h
  obtain rfl : scale = 0 := hcanonical.2.2.resolve_left (by decide)
  rfl

namespace Number

/-- Equal numbers are the same, or the two zeros among the doubles. -/
theorem same_iff {left right : Number} :
    left.same right = true ↔
      left = right ∨ ∃ sign sign', left = .double (.zero sign) ∧ right = .double (.zero sign') := by
  constructor
  · intro h
    cases left with
    | integer left =>
      cases right with
      | integer right => exact .inl (congrArg integer (beq_iff_eq.1 h))
      | double right => cases h
    | double left =>
      cases right with
      | integer right => cases h
      | double right =>
        simp only [same, Double.same, Bool.and_eq_true, Bool.or_eq_true, beq_iff_eq] at h
        obtain ⟨⟨hsignificand, hscale⟩, hnegative | hzero⟩ := h
        · left
          obtain ⟨negative, significand, scale, hleft⟩ := left
          obtain ⟨negative', significand', scale', hright⟩ := right
          obtain rfl : significand = significand' := hsignificand
          obtain rfl : scale = scale' := hscale
          obtain rfl : negative = negative' := hnegative
          rfl
        · right
          have hzero' : right.isZero = true := by
            rw [Double.isZero] at hzero ⊢
            rw [← hsignificand, hzero]
          exact ⟨_, _, congrArg double (Double.eq_zero_of_isZero hzero),
            congrArg double (Double.eq_zero_of_isZero hzero')⟩
  · rintro (rfl | ⟨sign, sign', rfl, rfl⟩)
    · cases left <;> simp [same, Double.same]
    · cases sign <;> cases sign' <;> rfl

theorem isZero_of_same {left right : Number} (h : left.same right = true) : left.isZero = right.isZero := by
  rcases same_iff.1 h with rfl | ⟨sign, sign', rfl, rfl⟩
  · rfl
  · rfl

/-- Both zeros are written without a sign in the output of a template. -/
theorem render_of_same {left right : Number} (h : left.same right = true) : left.render = right.render := by
  rcases same_iff.1 h with rfl | ⟨sign, sign', rfl, rfl⟩
  · rfl
  · have hzero : ∀ sign, (double (.zero sign)).render = ['0'] := by decide +kernel
    rw [hzero, hzero]

theorem same_refl (number : Number) : number.same number = true :=
  same_iff.2 (.inl rfl)

theorem same_symm {left right : Number} (h : left.same right = true) : right.same left = true := by
  rcases same_iff.1 h with rfl | ⟨sign, sign', rfl, rfl⟩
  · exact same_refl _
  · exact same_iff.2 (.inr ⟨_, _, rfl, rfl⟩)

theorem same_trans {left middle right : Number} (h : left.same middle = true) (h' : middle.same right = true) :
    left.same right = true := by
  rcases same_iff.1 h with rfl | ⟨sign, sign', rfl, rfl⟩
  · exact h'
  · rcases same_iff.1 h' with rfl | ⟨_, _, -, rfl⟩
    · exact h
    · exact same_iff.2 (.inr ⟨_, _, rfl, rfl⟩)

end Number

/-! ### The parts of values -/

namespace Value

variable {φ : Type}

/-- The items of an array and the members of an object. -/
def parts : Value φ → List (Value φ)
  | .array items => items
  | .object members => members.map Prod.snd
  | _ => []

theorem sizeOf_lt_of_mem_parts {value part : Value φ} (h : part ∈ value.parts) : sizeOf part < sizeOf value := by
  match value with
  | .array items =>
    have hlt := List.sizeOf_lt_of_mem (show part ∈ items from h)
    rw [array.sizeOf_spec]
    omega
  | .object members =>
    obtain ⟨member, hmember, rfl⟩ := List.mem_map.1 h
    have hlt := List.sizeOf_lt_of_mem hmember
    obtain ⟨name, part⟩ := member
    simp only [object.sizeOf_spec, Prod.mk.sizeOf_spec] at hlt ⊢
    omega
  | .null | .boolean _ | .number _ | .string _ | .safe _ | .function _ => nomatch h

/-- What passes from the parts of values to the values holds of every value. -/
@[elab_as_elim]
theorem parts_induction {motive : Value φ → Prop}
    (h : ∀ value, (∀ part ∈ value.parts, motive part) → motive value) (value : Value φ) : motive value :=
  h value fun part _ => parts_induction h part
termination_by sizeOf value
decreasing_by exact sizeOf_lt_of_mem_parts ‹_›

theorem mem_parts_of_get? {value found : Value φ} {name : String} (h : value.get? name = some found) :
    found ∈ value.parts := by
  match value with
  | .array items =>
    obtain ⟨index, -, hindex⟩ := Option.bind_eq_some_iff.1 h
    exact List.mem_of_getElem? hindex
  | .object members => exact List.mem_map.2 ⟨_, Table.mem_of_find? h, rfl⟩
  | .null | .boolean _ | .number _ | .string _ | .safe _ | .function _ => nomatch h

theorem renderItems_eq_map (items : List (Value φ)) : renderItems items = items.map render := by
  induction items with
  | nil => rfl
  | cons item items ih => rw [renderItems, List.map_cons, ih]

/-- A value that is no function and in which none occurs, at any depth. -/
inductive FunctionFree : Value φ → Prop where
  | intro {value : Value φ} : value.isFunction = false → (∀ part ∈ value.parts, part.FunctionFree) →
    FunctionFree value

theorem FunctionFree.part {value part : Value φ} (h : value.FunctionFree) (hpart : part ∈ value.parts) :
    part.FunctionFree := by
  cases h with
  | intro _ hparts => exact hparts part hpart

/-! ### Equality by cases -/

variable [BEq φ]

/-- Two values of the same kind with equal parts in the same places. -/
inductive Matches : Value φ → Value φ → Prop where
  | null : Matches .null .null
  | boolean (value : Bool) : Matches (.boolean value) (.boolean value)
  | number {left right : Number} : left.same right = true → Matches (.number left) (.number right)
  | string (text : String) : Matches (.string text) (.string text)
  | safe (text : String) : Matches (.safe text) (.safe text)
  | array {lefts rights : List (Value φ)} : List.Forall₂ (fun left right => left.same right = true) lefts rights →
    Matches (.array lefts) (.array rights)
  | object {lefts rights : List (String × Value φ)} :
    Table.Rel (fun left right => left.same right = true) lefts rights → Matches (.object lefts) (.object rights)
  | function {left right : φ} : (left == right) = true → Matches (.function left) (.function right)

theorem sameItems_iff {lefts rights : List (Value φ)} :
    sameItems lefts rights = true ↔ List.Forall₂ (fun left right => left.same right = true) lefts rights := by
  induction lefts generalizing rights with
  | nil => cases rights <;> simp [sameItems]
  | cons left lefts ih => cases rights <;> simp [sameItems, ih]

theorem sameMembers_iff {lefts rights : List (String × Value φ)} :
    sameMembers lefts rights = true ↔ Table.Rel (fun left right => left.same right = true) lefts rights := by
  induction lefts generalizing rights with
  | nil => cases rights <;> simp [sameMembers, Table.Rel]
  | cons left lefts ih =>
    cases rights with
    | nil => simp [sameMembers, Table.Rel]
    | cons right rights => simp [sameMembers, ih, Table.Rel, and_assoc]

theorem same_iff {left right : Value φ} : left.same right = true ↔ left.Matches right := by
  constructor
  · intro h
    cases left <;> cases right <;> simp only [same, Bool.false_eq_true] at h
    case null.null => exact .null
    case boolean.boolean =>
      obtain rfl := beq_iff_eq.1 h
      exact .boolean _
    case number.number => exact .number h
    case string.string =>
      obtain rfl := beq_iff_eq.1 h
      exact .string _
    case safe.safe =>
      obtain rfl := beq_iff_eq.1 h
      exact .safe _
    case array.array => exact .array (sameItems_iff.1 h)
    case object.object => exact .object (sameMembers_iff.1 h)
    case function.function => exact .function h
  · intro h
    cases h with
    | null => rfl
    | boolean value => exact beq_self_eq_true value
    | number h => exact h
    | string text | safe text => exact beq_self_eq_true text
    | array hitems => exact sameItems_iff.2 hitems
    | object hmembers => exact sameMembers_iff.2 hmembers
    | function h => exact h

/-! ### An equivalence -/

section

variable [EquivBEq φ]

theorem same_refl (value : Value φ) : value.same value = true := by
  induction value using parts_induction with
  | h value ih =>
    refine same_iff.2 ?_
    cases value with
    | null => exact .null
    | boolean value => exact .boolean value
    | number value => exact .number value.same_refl
    | string text => exact .string text
    | safe text => exact .safe text
    | array items => exact .array (List.forall₂_same.2 ih)
    | object members =>
      exact .object (List.forall₂_same.2 fun member hmember => ⟨rfl, ih _ (List.mem_map_of_mem hmember)⟩)
    | function handle => exact .function BEq.rfl

theorem same_symm {left right : Value φ} (h : left.same right = true) : right.same left = true := by
  induction left using parts_induction generalizing right with
  | h left ih =>
    refine same_iff.2 ?_
    cases same_iff.1 h with
    | null => exact .null
    | boolean value => exact .boolean value
    | number h => exact .number (Number.same_symm h)
    | string text => exact .string text
    | safe text => exact .safe text
    | array hitems => exact .array (forall₂_imp_of_mem hitems fun left hleft _ => ih left hleft).flip
    | object hmembers =>
      refine .object (forall₂_imp_of_mem hmembers fun left hleft right hentry => ?_).flip
      exact ⟨hentry.1.symm, ih _ (List.mem_map_of_mem hleft) hentry.2⟩
    | function h => exact .function (BEq.symm h)

theorem same_trans {left middle right : Value φ} (h : left.same middle = true) (h' : middle.same right = true) :
    left.same right = true := by
  induction left using parts_induction generalizing middle right with
  | h left ih =>
    refine same_iff.2 ?_
    cases same_iff.1 h with
    | null | boolean | string | safe => exact same_iff.1 h'
    | number h =>
      cases same_iff.1 h' with
      | number h' => exact .number (Number.same_trans h h')
    | array hitems =>
      cases same_iff.1 h' with
      | array hitems' => exact .array (forall₂_trans_of hitems hitems' fun left hleft _ _ => ih left hleft)
    | object hmembers =>
      cases same_iff.1 h' with
      | object hmembers' =>
        refine .object (forall₂_trans_of hmembers hmembers' fun left hleft _ _ hentry hentry' => ?_)
        exact ⟨hentry.1.trans hentry'.1, ih _ (List.mem_map_of_mem hleft) hentry.2 hentry'.2⟩
    | function h =>
      cases same_iff.1 h' with
      | function h' => exact .function (BEq.trans h h')

end

/-! ### What equal values have in common -/

variable {left right : Value φ}

theorem isNull_of_same (h : left.same right = true) : left.isNull = right.isNull := by
  cases same_iff.1 h <;> rfl

theorem isTruthy_of_same (h : left.same right = true) : left.isTruthy = right.isTruthy := by
  cases same_iff.1 h with
  | null | boolean | string | safe | object | function => rfl
  | number h => exact congrArg (!·) (Number.isZero_of_same h)
  | array hitems => exact congrArg (!·) (forall₂_isEmpty_eq hitems)

theorem get?_of_same (h : left.same right = true) (name : String) :
    Option.Rel (fun left right => left.same right = true) (left.get? name) (right.get? name) := by
  cases same_iff.1 h with
  | null | boolean | number | string | safe | function => exact .none
  | array hitems =>
    rw [get?, get?]
    cases arrayIndex? name.toList with
    | none => exact .none
    | some index => exact forall₂_getElem? hitems index
  | object hmembers => exact hmembers.find? name

theorem render_of_same (h : left.same right = true) : left.render = right.render := by
  induction left using parts_induction generalizing right with
  | h left ih =>
    cases same_iff.1 h with
    | null | boolean | string | safe | object | function => rfl
    | number h => rw [render, render, Number.render_of_same h]
    | array hitems =>
      rw [render, render, renderItems_eq_map, renderItems_eq_map,
        map_eq_map_of_forall₂ (forall₂_imp_of_mem hitems fun left hleft _ => ih left hleft)]

/-- Equal values are written alike, since text that is safe is only equal to text that is safe. -/
theorem write_of_same (h : left.same right = true) (escape : Bool) : left.write escape = right.write escape := by
  have hrender := render_of_same h
  have hescaped : left.escaped = right.escaped := by
    cases same_iff.1 h with
    | null | boolean | string | safe | object | function => rfl
    | number | array => exact congrArg Html.escape hrender
  rw [write, write, hrender, hescaped]

end Value

end Stencil
