import Stencil.Proofs.Render.Congruence

/-!
# Renderings that come to an end

The limit on the nesting of partials only cuts off renderings that do not end by themselves. A
rendering that stays within a limit is the same within every larger one. So a template has one
outcome at most, and the outcome that is rendered within the usual limit is that one, unless the
limit is exhausted.
-/

namespace Stencil

variable {φ σ τ : Type}

theorem Run.compile_silent (source : SourcePartial) (trackData : Bool) :
    Run.compile (Host.silent : Host φ σ) source trackData =
      Run.ofExcept ((Template.compile source.text (SourcePartial.options trackData)).mapError
        .unparsable) := by
  funext state
  simp only [Run.compile, Host.silent, Host.noting]
  cases Template.compile source.text (SourcePartial.options trackData) <;> rfl

theorem Run.compile_silent_related (relation : Run.Congruence σ τ) (source : SourcePartial)
    (trackData : Bool) :
    relation.Related (Run.compile (Host.silent : Host φ σ) source trackData)
      (Run.compile (Host.silent : Host φ τ) source trackData) := by
  rw [Run.compile_silent, Run.compile_silent]
  exact relation.ofExcept_related _

/-! ### Approximation -/

/-- The first run is the second, unless it is exhausted or its state is spoiled in the end. What is
spoiled stays spoiled. -/
def Run.approximation (spoiled : σ → Prop) : Run.Congruence σ σ where
  Related run run' := ∀ state, (spoiled state → spoiled (run state).2) ∧
    (¬spoiled (run state).2 → (run state).1 = .exhausted ∨ run state = run' state)
  pure_related _ := fun _ => ⟨id, fun _ => .inr rfl⟩
  fail_related _ := fun _ => ⟨id, fun _ => .inr rfl⟩
  bind_related := by
    intro α β run run' next next' hrun hnext state
    obtain ⟨hkeep, hsame⟩ := hrun state
    rw [Run.bind_apply, Run.bind_apply]
    rcases heq : run state with ⟨result | error | _, between⟩
    · rw [heq] at hkeep hsame
      obtain ⟨hkeep', hsame'⟩ := hnext result between
      refine ⟨fun hstate => hkeep' (hkeep hstate), fun hend => ?_⟩
      rcases hsame (fun hbetween => hend (hkeep' hbetween)) with hexhausted | hrun'
      · nomatch hexhausted
      · rw [← hrun']
        exact hsame' hend
    · rw [heq] at hkeep hsame
      refine ⟨hkeep, fun hend => ?_⟩
      rcases hsame hend with hexhausted | hrun'
      · nomatch hexhausted
      · rw [← hrun']
        exact .inr rfl
    · rw [heq] at hkeep
      exact ⟨hkeep, fun _ => .inl rfl⟩
  attempt_related := by
    intro α run run' hrun state
    obtain ⟨hkeep, hsame⟩ := hrun state
    rw [Run.attempt, Run.attempt]
    rcases heq : run state with ⟨result | error | _, after⟩
    all_goals rw [heq] at hkeep hsame
    all_goals refine ⟨hkeep, fun hend => ?_⟩
    · rcases hsame hend with hexhausted | hrun'
      · nomatch hexhausted
      · exact .inr (by rw [← hrun'])
    · rcases hsame hend with hexhausted | hrun'
      · nomatch hexhausted
      · exact .inr (by rw [← hrun'])
    · exact .inl rfl

namespace Run

variable {α : Type} {spoiled : σ → Prop}

theorem exhausted_approximation (run : Run σ α) :
    (Run.approximation spoiled).Related Run.exhausted run :=
  fun _ => ⟨id, fun _ => .inl rfl⟩

theorem approximation_unspoiled {run run' : Run σ α}
    (h : (Run.approximation fun _ => False).Related run run') (state : σ)
    (hend : (run state).1 ≠ .exhausted) : run' state = run state := by
  rcases (h state).2 not_false with hexhausted | heq
  · exact absurd hexhausted hend
  · exact heq.symm

end Run

/-- A run with a limit on the nesting of partials approximates the runs with larger limits. -/
theorem Template.run_approximation [Callable φ] (spoiled : σ → Prop) (environment : Environment φ)
    (limit more : Nat) (template : Template) (context : Value φ) (data : Option (Table (Value φ))) :
    (Run.approximation spoiled).Related
      (Template.run .silent environment limit template context data)
      (Template.run .silent environment (limit + more) template context data) := by
  have hrelated : (Run.approximation spoiled).Related
      (Template.run .silent environment (0 + limit) template context data)
      (Template.run .silent environment (more + limit) template context data) :=
    Template.run_related (fun _ => Run.Congruence.pure_related _ ()) (Run.compile_silent_related _)
      (fun _ _ _ => Run.exhausted_approximation _) limit template context data
  rwa [Nat.zero_add, Nat.add_comm] at hrelated

/-! ### Outcomes -/

namespace Template

variable [Callable φ]

/-- A template renders to an outcome if partials may be nested deeply enough. -/
def Yields (template : Template) (context : Value φ) (environment : Environment φ)
    (outcome : Outcome String) : Prop :=
  outcome ≠ .exhausted ∧
    ∃ limit, (template.run .plain environment limit context environment.data ()).1 = outcome

variable {template : Template} {context : Value φ} {environment : Environment φ}

theorem run_eq_of_le {limit limit' : Nat} (hle : limit ≤ limit') {state : σ}
    {data : Option (Table (Value φ))}
    (hend : (template.run .silent environment limit context data state).1 ≠ .exhausted) :
    template.run .silent environment limit' context data state =
      template.run .silent environment limit context data state := by
  obtain ⟨more, rfl⟩ := Nat.exists_eq_add_of_le hle
  exact Run.approximation_unspoiled (run_approximation _ _ _ _ _ _ _) state hend

/-- A template has one outcome at most. -/
theorem Yields.unique {outcome outcome' : Outcome String}
    (h : template.Yields context environment outcome)
    (h' : template.Yields context environment outcome') : outcome = outcome' := by
  obtain ⟨hend, limit, rfl⟩ := h
  obtain ⟨hend', limit', rfl⟩ := h'
  have hleft := run_eq_of_le (Nat.le_max_left limit limit') hend
  have hright := run_eq_of_le (Nat.le_max_right limit limit') hend'
  exact congrArg Prod.fst (hleft.symm.trans hright)

/-- What is rendered within the usual limit is the outcome of a template, if it has come to its
end. -/
theorem render_eq_iff_yields {outcome : Outcome String}
    (hend : template.render context environment ≠ .exhausted) :
    template.render context environment = outcome ↔ template.Yields context environment outcome := by
  constructor
  · intro heq
    subst heq
    exact ⟨hend, nestingLimit, rfl⟩
  · intro h
    exact Yields.unique ⟨hend, nestingLimit, rfl⟩ h

end Template

end Stencil
