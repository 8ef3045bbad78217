import Stencil.Demo.Page
import Stencil.Proofs.Render.Congruence

/-!
# The data frame of the environment

A template takes the data frame of the environment to its root scope if it tracks data, and nowhere
else is that frame asked for. Tags and bodies of blocks find the frame in their scope, and a partial
gets the frame of the scope that its tag stands in. So a template that does not track data renders
the same whatever the frame of the environment is, and so do its partials, even those that track
data themselves.
-/

namespace Stencil

variable {φ σ : Type} [Callable φ]

theorem Template.run_eq_of_helpers_partials {environment environment' : Environment φ}
    (hhelpers : environment.helpers = environment'.helpers)
    (hpartials : environment.partials = environment'.partials) (host : Host φ σ) (limit : Nat) :
    Template.run host environment limit = Template.run host environment' limit := by
  induction limit with
  | zero => rfl
  | succ limit ih =>
    funext template context data
    have hlinked : Renderer.Linked (Run.equality σ)
        ⟨host, environment, template.options, Template.run host environment limit⟩
        ⟨host, environment', template.options, Template.run host environment' limit⟩ :=
      { helpers := hhelpers
        options := rfl
        note := fun _ => rfl }
    refine hlinked.ops ?_ _ template.ops
    intro scope name context
    change _ = _
    rw [Renderer.inclusion.eq_def, Renderer.inclusion.eq_def, hpartials, ih]

theorem Template.run_eq_of_untracked {template : Template} (huntracked : template.options.data = false)
    (host : Host φ σ) (environment : Environment φ) (limit : Nat) (context : Value φ)
    (data data' : Option (Table (Value φ))) :
    template.run host environment limit context data = template.run host environment limit context data' := by
  cases limit with
  | zero => rfl
  | succ limit =>
    rw [Template.run, Template.run, huntracked]
    rfl

/-- **A template that does not track data leaks none of it.** It renders to the same output or error
in two environments that differ in nothing but the data frame, and calls its helpers in the same
way. This is so whatever its partials are and however deeply they are nested; some of them may track
data. -/
theorem render_eq_of_untracked {template : Template} (huntracked : template.options.data = false)
    (environment : Environment φ) (context : Value φ) (data data' : Option (Table (Value φ))) :
    (∀ (host : Host φ σ) limit,
      template.run host { environment with data := data } limit context data =
        template.run host { environment with data := data' } limit context data') ∧
    template.render context { environment with data := data } =
      template.render context { environment with data := data' } := by
  have hrun : ∀ {τ : Type} (host : Host φ τ) limit,
      template.run host { environment with data := data } limit context data =
        template.run host { environment with data := data' } limit context data' := by
    intro τ host limit
    have hframe : Template.run host { environment with data := data } limit =
        Template.run host { environment with data := data' } limit := by
      apply Template.run_eq_of_helpers_partials
      · rfl
      · rfl
    rw [Template.run_eq_of_untracked huntracked host _ limit context data data', hframe]
  exact ⟨hrun, congrArg Prod.fst (congrFun (hrun .plain Template.nestingLimit) ())⟩

/-- A partial that tracks data sees the frame that a helper gives to a body, but not that of the
environment. -/
theorem render_eq_of_untracked_partial :
    let call (name : String) : Call := ⟨.path ⟨name, 0, false, [name]⟩, [], [], ⟨0, 0⟩⟩
    let row : Template := ⟨compileNodes { data := true } [.mustache (call "peek") true,
      .block (call "lend") [.mustache (call "peek") true] none], { data := true }⟩
    let page : Template := ⟨compileNodes {} [.mustache (call "peek") true, .inclusion "row" none], {}⟩
    let peek : Helper Empty := .custom fun invocation => pure (.string (if invocation.data.isSome then "+" else "-"))
    let lend : Helper Empty := .custom fun _ =>
      .string <$> Action.render { inverse := false, data := some [("user", .string "Ann")] }
    let environment : Environment Empty :=
      { helpers := [("lend", lend), ("peek", peek)], partials := [("row", .compiled row)] }
    page.options.data = false ∧ ∀ data : Option (Table (Value Empty)),
      page.render .null { environment with data := data } = .done "--+" := by
  intro call row page peek lend environment
  refine ⟨rfl, fun data => ?_⟩
  have hnone : page.render .null { environment with data := none } = .done "--+" := by decide +kernel
  rw [← hnone]
  exact (render_eq_of_untracked (σ := Unit) rfl environment .null data none).2

end Stencil
