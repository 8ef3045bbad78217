import Stencil.Render.Template

/-!
# Laws of runs

Runs form a lawful monad, so what a renderer does can be rearranged like any other sequence of
steps. The operations of a template can be cut anywhere: text that was joined while compiling
renders as its two parts.
-/

namespace Stencil

namespace Run

variable {σ α β : Type}

theorem bind_apply (run : Run σ α) (next : α → Run σ β) (state : σ) :
    (run >>= next) state = match run state with
      | (.done result, state) => next result state
      | (.failed error, state) => (.failed error, state)
      | (.exhausted, state) => (.exhausted, state) :=
  rfl

instance : LawfulMonad (Run σ) := by
  refine LawfulMonad.mk' _ ?_ (fun _ _ => rfl) ?_
  · intro α run
    funext state
    change (run >>= fun result => Pure.pure result) state = run state
    rw [bind_apply]
    rcases run state with ⟨_ | _ | _, _⟩ <;> rfl
  · intro α β γ run next last
    funext state
    simp only [bind_apply]
    rcases run state with ⟨_ | _ | _, _⟩ <;> rfl

end Run

theorem Target.ofFound_of_value {φ : Type} [Callable φ] {found : Option (Value φ)}
    (h : ∀ handle, found ≠ some (.function handle)) : Target.ofFound found = .value found := by
  rw [Target.ofFound.eq_def]
  split
  · next handle => exact absurd rfl (h handle)
  · rfl

namespace Renderer

variable {φ σ : Type} [Callable φ] (renderer : Renderer φ σ) (scope : Scope φ)

theorem ops_cons (next : Op) (rest : List Op) :
    renderer.ops scope (next :: rest) = do
      let text ← renderer.op scope next
      return text ++ (← renderer.ops scope rest) := by
  rw [ops]

/-- Joining text in front of operations does not change what they render. -/
theorem ops_prepend (op : Op) (rest : List Op) :
    renderer.ops scope (op.prepend rest) = do
      let text ← renderer.op scope op
      return text ++ (← renderer.ops scope rest) := by
  rw [Op.prepend.eq_def]
  split
  · simp only [ops_cons, Renderer.op, pure_bind, bind_assoc, String.append_assoc]
  · rw [ops_cons]

end Renderer

end Stencil
