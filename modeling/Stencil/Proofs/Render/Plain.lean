import Stencil.Proofs.Render.Congruence
import Stencil.Proofs.Table

/-!
# Plain values

Two kinds of values can bring more than data into the output: text that counts as safe, and
functions. A value without them has no parts with them, so whatever is looked up in plain contexts
is plain, and the contexts stay so in the bodies of blocks.
-/

namespace Stencil

variable {φ σ : Type}

/-- A value in which neither safe text nor functions occur, at any depth. -/
inductive Value.Plain : Value φ → Prop where
  | null : Plain .null
  | boolean (value : Bool) : Plain (.boolean value)
  | number (value : Number) : Plain (.number value)
  | string (text : String) : Plain (.string text)
  | array {items : List (Value φ)} : (∀ item ∈ items, item.Plain) → Plain (.array items)
  | object {members : List (String × Value φ)} : (∀ member ∈ members, member.2.Plain) →
    Plain (.object members)

namespace Value.Plain

theorem get? {value found : Value φ} {name : String} (h : value.Plain) (hfound : value.get? name = some found) :
    found.Plain := by
  cases h with
  | null | boolean | number | string => cases hfound
  | array hitems =>
    obtain ⟨index, -, hindex⟩ := Option.bind_eq_some_iff.1 hfound
    exact hitems found (List.mem_of_getElem? hindex)
  | object hmembers => exact hmembers _ (Table.mem_of_find? hfound)

theorem descend? {value found : Value φ} {names : List String} (h : value.Plain)
    (hfound : Value.descend? names value = some found) : found.Plain := by
  induction names generalizing value with
  | nil =>
    obtain rfl := Option.some.inj hfound
    exact h
  | cons name names ih =>
    obtain ⟨member, hmember, hfound⟩ := Option.bind_eq_some_iff.1 hfound
    exact ih (h.get? hmember) hfound

theorem getD {found : Option (Value φ)} (h : ∀ value ∈ found, value.Plain) : (found.getD .null).Plain := by
  cases found with
  | none => exact .null
  | some value => exact h value rfl

end Value.Plain

def Scope.Plain (scope : Scope φ) : Prop :=
  ∀ context ∈ scope.current :: scope.outer, context.Plain

theorem Scope.Plain.current {scope : Scope φ} (h : scope.Plain) : scope.current.Plain :=
  h _ List.mem_cons_self

theorem Scope.Plain.find? {scope : Scope φ} (h : scope.Plain) {path : Path} {found : Value φ}
    (hfound : scope.find? path = some found) : found.Plain := by
  obtain ⟨context, hcontext, hfound⟩ := Option.bind_eq_some_iff.1 hfound
  exact (h context (List.mem_of_getElem? hcontext)).descend? hfound

theorem Scope.Plain.entered {scope : Scope φ} (h : scope.Plain) (interpreter : Interpreter φ σ)
    {request : BodyRequest φ} (hrequest : ∀ context ∈ request.context, context.Plain) :
    (interpreter.entered scope request).Plain := by
  intro context hmem
  rcases List.mem_cons.1 hmem with rfl | hmem
  · change (request.context.getD scope.current).Plain
    cases hcontext : request.context with
    | none => exact h.current
    | some context => exact hrequest context hcontext
  · exact h context hmem

theorem Scope.Plain.value {scope : Scope φ} (h : scope.Plain) (expr : Expr) :
    (Interpreter.value scope expr).Plain := by
  cases expr with
  | path path => exact .getD fun value hvalue => h.find? hvalue
  | literal literal =>
    cases literal with
    | string content => exact .string content
    | boolean value => exact .boolean value
    | number text =>
      rw [Interpreter.value, Literal.value]
      split
      · exact .number _
      · exact .string text

theorem Scope.Plain.param {scope : Scope φ} (h : scope.Plain) (interpreter : Interpreter φ σ) (expr : Expr) :
    (interpreter.param scope expr).Plain := by
  rw [Interpreter.param.eq_def]
  split
  · split
    · exact .string _
    · exact h.value _
  · exact h.value _

end Stencil
