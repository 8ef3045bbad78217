import Stencil.Proofs.Html
import Stencil.Proofs.Render.Plain

/-!
# Output in pieces

What a run may write can be said without its host: a kind that every result of it belongs to. The
kind here is text in pieces, each of them known or escaped. A helper of the library only puts
together what its bodies give it, and has them rendered in parts of its first parameter.
-/

namespace Stencil

variable {φ σ : Type}

/-! ### Results of runs -/

/-- Every result of the run is of a kind, whatever the state is. -/
def Run.Ensures {α : Type} (kind : α → Prop) (run : Run σ α) : Prop :=
  ∀ state result after, run state = (.done result, after) → kind result

namespace Run.Ensures

variable {α β : Type} {kind : α → Prop}

theorem pure {result : α} (h : kind result) : Run.Ensures kind (Pure.pure result : Run σ α) := by
  intro state result after hrun
  obtain ⟨⟨⟩, -⟩ := Prod.mk.inj hrun
  exact h

theorem fail (error : RenderError) : Run.Ensures kind (Run.fail error : Run σ α) := by
  intro state result after hrun
  obtain ⟨⟨⟩, -⟩ := Prod.mk.inj hrun

theorem exhausted : Run.Ensures kind (Run.exhausted : Run σ α) := by
  intro state result after hrun
  obtain ⟨⟨⟩, -⟩ := Prod.mk.inj hrun

theorem bind {next : α → Run σ β} {last : β → Prop} {run : Run σ α} (hrun : run.Ensures kind)
    (hnext : ∀ result, kind result → (next result).Ensures last) : (run >>= next).Ensures last := by
  intro state result after heq
  rw [Run.bind_apply] at heq
  rcases hfirst : run state with ⟨first | error | _, between⟩
  · rw [hfirst] at heq
    exact hnext first (hrun state first between hfirst) between result after heq
  · rw [hfirst] at heq
    obtain ⟨⟨⟩, -⟩ := Prod.mk.inj heq
  · rw [hfirst] at heq
    obtain ⟨⟨⟩, -⟩ := Prod.mk.inj heq

theorem weaken {last : α → Prop} {run : Run σ α} (hrun : run.Ensures kind)
    (hlast : ∀ result, kind result → last result) : run.Ensures last :=
  fun state result after heq => hlast result (hrun state result after heq)

theorem map {last : β → Prop} {run : Run σ α} (hrun : run.Ensures kind) {change : α → β}
    (hchange : ∀ result, kind result → last (change result)) :
    (do return change (← run) : Run σ β).Ensures last :=
  hrun.bind fun result hresult => .pure (hchange result hresult)

theorem attempt {run : Run σ α} (hrun : run.Ensures kind) :
    run.attempt.Ensures fun answer => ∀ result, answer = .ok result → kind result := by
  intro state answer after heq
  rw [Run.attempt] at heq
  rcases hfirst : run state with ⟨first | error | _, between⟩
  · rw [hfirst] at heq
    obtain ⟨⟨⟩, -⟩ := Prod.mk.inj heq
    rintro result ⟨⟩
    exact hrun state first between hfirst
  · rw [hfirst] at heq
    obtain ⟨⟨⟩, -⟩ := Prod.mk.inj heq
    rintro result ⟨⟩
  · rw [hfirst] at heq
    obtain ⟨⟨⟩, -⟩ := Prod.mk.inj heq

end Run.Ensures

/-! ### Output in pieces -/

/-- Text that consists of pieces, each of them of some kind or escaped. -/
def Assembled (contents : String → Prop) (output : String) : Prop :=
  ∃ pieces : List String, output.toList = pieces.flatMap String.toList ∧
    ∀ piece ∈ pieces, contents piece ∨ ∃ text, piece = Html.escape text

namespace Assembled

variable {contents : String → Prop}

theorem empty : Assembled contents "" :=
  ⟨[], rfl, by simp⟩

theorem content {text : String} (h : contents text) : Assembled contents text :=
  ⟨[text], by simp, by simpa using .inl h⟩

theorem escaped (text : String) : Assembled contents (Html.escape text) :=
  ⟨[Html.escape text], by simp, by simp⟩

theorem of_plain {value : Value φ} (h : value.Plain) : Assembled contents value.escaped := by
  cases h with
  | null => exact empty
  | boolean | number | string | array | object => exact escaped _

theorem append {left right : String} (hleft : Assembled contents left) (hright : Assembled contents right) :
    Assembled contents (left ++ right) := by
  obtain ⟨pieces, hpieces, hkinds⟩ := hleft
  obtain ⟨more, hmore, hothers⟩ := hright
  refine ⟨pieces ++ more, ?_, ?_⟩
  · rw [String.toList_append, hpieces, hmore, List.flatMap_append]
  · intro piece hpiece
    exact (List.mem_append.1 hpiece).elim (hkinds piece) (hothers piece)

theorem inert {output : String} (h : Assembled contents output)
    (hcontents : ∀ text, contents text → ∀ char ∈ text.toList, Html.entity? char = none) :
    Html.Inert output.toList := by
  obtain ⟨pieces, hpieces, hkinds⟩ := h
  rw [hpieces]
  clear hpieces
  induction pieces with
  | nil => exact .nil
  | cons piece pieces ih =>
    rw [List.flatMap_cons]
    refine Html.Inert.append ?_ (ih fun other hother => hkinds other (List.mem_cons_of_mem _ hother))
    rcases hkinds piece List.mem_cons_self with hpiece | ⟨text, rfl⟩
    · exact .of_plain (hcontents piece hpiece)
    · exact .escaped text

end Assembled

/-! ### Helpers of the library -/

/-- An action that asks for bodies only in plain contexts, and whose result is of a kind if the
answers are. -/
inductive Action.Keeps {α : Type} (answers : String → Prop) (kind : α → Prop) : Action φ α → Prop where
  | done {result : α} : kind result → Keeps answers kind (.done result)
  | fail (error : RenderError) : Keeps answers kind (.fail error)
  | body {request : BodyRequest φ} {next : Except RenderError String → Action φ α} :
    (∀ context ∈ request.context, context.Plain) →
    (∀ answer, (∀ text, answer = .ok text → answers text) → Keeps answers kind (next answer)) →
    Keeps answers kind (.body request next)

namespace Action.Keeps

variable {α β : Type} {answers : String → Prop} {kind : α → Prop}

theorem bind {last : β → Prop} {action : Action φ α} {next : α → Action φ β} (h : action.Keeps answers kind)
    (hnext : ∀ result, kind result → (next result).Keeps answers last) :
    (action >>= next).Keeps answers last := by
  induction h with
  | done hresult => exact hnext _ hresult
  | fail error => exact .fail error
  | body hrequest _ ih => exact .body hrequest ih

theorem render {request : BodyRequest φ} (h : ∀ context ∈ request.context, context.Plain) :
    (Action.render request).Keeps answers answers := by
  refine .body h fun answer hanswer => ?_
  cases answer with
  | ok text => exact .done (hanswer text rfl)
  | error error => exact .fail error

theorem renderBlock {context : Option (Value φ)} (h : ∀ value ∈ context, value.Plain) :
    (Action.renderBlock context).Keeps answers answers :=
  .render h

theorem renderInverse : (Action.renderInverse : Action φ String).Keeps answers answers :=
  .render (by simp)

end Action.Keeps

/-- What a helper of the library returns: nothing, or text of a kind. -/
def Value.IsText (kind : String → Prop) (value : Value φ) : Prop :=
  value = .null ∨ ∃ text, value = .string text ∧ kind text

theorem Action.Keeps.string {answers : String → Prop} {action : Action φ String}
    (h : action.Keeps answers answers) :
    (Value.string <$> action : Action φ (Value φ)).Keeps answers (Value.IsText answers) :=
  h.bind fun text htext => .done (.inr ⟨text, rfl, htext⟩)

section Builtin

variable {contents : String → Prop}

theorem Builtin.renderItems_keeps {items : List (Value φ)} (h : ∀ item ∈ items, item.Plain) :
    (Builtin.renderItems items).Keeps (Assembled contents) (Assembled contents) := by
  have heach : ∀ rest : List (Value φ), (∀ item ∈ rest, item.Plain) →
      (Builtin.renderEach rest).Keeps (Assembled contents) (Assembled contents) := by
    intro rest hrest
    induction rest with
    | nil => exact .done .empty
    | cons item rest ih =>
      rw [Builtin.renderEach]
      refine (Action.Keeps.renderBlock ?_).bind fun text htext => ?_
      · rintro value ⟨⟩
        exact hrest item List.mem_cons_self
      · refine (ih fun other hother => hrest other (List.mem_cons_of_mem _ hother)).bind ?_
        exact fun more hmore => .done (htext.append hmore)
  rw [Builtin.renderItems.eq_def]
  split
  · exact .renderInverse
  · exact heach items h

theorem Builtin.renderSection_keeps {value : Value φ} (h : value.Plain) :
    (Builtin.renderSection value).Keeps (Assembled contents) (Assembled contents) := by
  have hblock : (if value.isTruthy then Action.renderBlock (some value) else Action.renderInverse).Keeps
      (Assembled contents) (Assembled contents) := by
    split
    · refine .renderBlock ?_
      rintro found ⟨⟩
      exact h
    · exact .renderInverse
  cases h with
  | array hitems => exact Builtin.renderItems_keeps hitems
  | null | boolean | number | string | object => exact hblock

/-- A helper of the library puts together what its bodies give, and has them rendered in parts of
its first parameter. -/
theorem Builtin.run_keeps (builtin : Builtin) {invocation : Invocation φ}
    (h : ∀ param ∈ invocation.params, param.Plain) :
    (builtin.run invocation).Keeps (Assembled contents) (Value.IsText (Assembled contents)) := by
  have hfirst : (invocation.params.headD .null).Plain := by
    cases hparams : invocation.params with
    | nil => exact .null
    | cons first rest => exact h first (by simp [hparams])
  have hplain : ∀ value ∈ some (invocation.params.headD .null), value.Plain := by
    rintro value ⟨⟩
    exact hfirst
  cases builtin with
  | ifHelper =>
    refine .string ?_
    split
    · exact .renderBlock (by simp)
    · exact .renderInverse
  | unlessHelper =>
    refine .string ?_
    split
    · exact .renderInverse
    · exact .renderBlock (by simp)
  | eachHelper =>
    refine .string ?_
    revert hfirst
    generalize invocation.params.headD .null = first
    intro hfirst
    cases hfirst with
    | array hitems => exact Builtin.renderItems_keeps hitems
    | object hmembers =>
      refine Builtin.renderItems_keeps fun item hitem => ?_
      obtain ⟨member, hmember, rfl⟩ := List.mem_map.1 hitem
      exact hmembers member hmember
    | null | boolean | number | string => exact .renderInverse
  | withHelper =>
    refine .string ?_
    split
    · exact .renderInverse
    · exact .renderBlock hplain
  | helperMissing => exact .done (.inl rfl)
  | blockHelperMissing => exact .string (Builtin.renderSection_keeps hfirst)

end Builtin

end Stencil
