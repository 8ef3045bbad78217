import Stencil.Proofs.Render.Congruence
import Stencil.Proofs.Table
import Stencil.Render.Cache

/-!
# Slots

A partial that is a text has its slots under a number. As long as a slot holds what the text with
its number compiles into, it makes no difference whether a template is taken from a slot or compiled
again. Filling a slot keeps this up, whatever becomes of the rendering that has filled it. So a host
that keeps what it has compiled renders like one that does not, and for the latter the numbers do
not matter.
-/

namespace Stencil

/-! ### What is in the slots -/

/-- The number of each filled slot is below the bound, and what it holds is the text of that number,
compiled. -/
def Cache.Sound (texts : Nat → String) (bound : Nat) (cache : Cache) : Prop :=
  ∀ cell trackData template, cache.lookup (cell, trackData) = some template →
    cell < bound ∧ Template.compile (texts cell) (SourcePartial.options trackData) = .ok template

/-- A text that is registered under its number. -/
structure SourcePartial.Numbered (texts : Nat → String) (bound : Nat) (registered : SourcePartial) : Prop where
  cell_lt : registered.cell < bound
  text : texts registered.cell = registered.text

section

variable {texts : Nat → String} {bound : Nat} {cache : Cache} {registered : SourcePartial}

theorem Cache.Sound.nil (texts : Nat → String) (bound : Nat) : Cache.Sound texts bound [] :=
  nofun

theorem Cache.Sound.cons (h : cache.Sound texts bound) (hregistered : registered.Numbered texts bound)
    {trackData : Bool} {template : Template}
    (htemplate : Template.compile registered.text (SourcePartial.options trackData) = .ok template) :
    Cache.Sound texts bound (((registered.cell, trackData), template) :: cache) := by
  intro cell mode found hfound
  by_cases hkey : (cell, mode) = (registered.cell, trackData)
  · obtain ⟨rfl, rfl⟩ := Prod.mk.inj hkey
    rw [List.lookup_cons_self] at hfound
    obtain rfl := Option.some.inj hfound
    rw [hregistered.text]
    exact ⟨hregistered.cell_lt, htemplate⟩
  · rw [List.lookup_cons, beq_false_of_ne hkey] at hfound
    exact h cell mode found hfound

theorem Cache.Sound.compile_of_lookup (h : cache.Sound texts bound) (hregistered : registered.Numbered texts bound)
    {trackData : Bool} {template : Template} (hlookup : cache.lookup (registered.cell, trackData) = some template) :
    Template.compile registered.text (SourcePartial.options trackData) = .ok template := by
  rw [← hregistered.text]
  exact (h _ _ _ hlookup).2

/-- Taking a template from its slot is compiling its text, and the slots stay sound. -/
theorem Cache.Sound.compile (h : cache.Sound texts bound) (hregistered : registered.Numbered texts bound)
    (trackData : Bool) :
    (cache.compile registered trackData).1 =
        Template.compile registered.text (SourcePartial.options trackData) ∧
      (cache.compile registered trackData).2.Sound texts bound := by
  rw [Cache.compile]
  cases hlookup : cache.lookup (registered.cell, trackData) with
  | some template => exact ⟨(h.compile_of_lookup hregistered hlookup).symm, h⟩
  | none =>
    cases hcompile : Template.compile registered.text (SourcePartial.options trackData) with
    | ok template => exact ⟨rfl, h.cons hregistered hcompile⟩
    | error error => exact ⟨rfl, h⟩

theorem Cache.Sound.mono (h : cache.Sound texts bound) {texts' : Nat → String} {bound' : Nat}
    (htexts : ∀ cell < bound, texts' cell = texts cell) (hbound : bound ≤ bound') :
    cache.Sound texts' bound' := by
  intro cell trackData template hlookup
  obtain ⟨hcell, hcompile⟩ := h cell trackData template hlookup
  rw [← htexts cell hcell] at hcompile
  exact ⟨Nat.lt_of_lt_of_le hcell hbound, hcompile⟩

theorem SourcePartial.Numbered.mono (h : registered.Numbered texts bound) {texts' : Nat → String} {bound' : Nat}
    (htexts : ∀ cell < bound, texts' cell = texts cell) (hbound : bound ≤ bound') :
    registered.Numbered texts' bound' :=
  ⟨Nat.lt_of_lt_of_le h.cell_lt hbound, (htexts _ h.cell_lt).trans h.text⟩

end

/-! ### Partials up to their numbers -/

/-- The same partial, perhaps under another number. -/
inductive Partial.Alike {φ : Type} : Partial φ → Partial φ → Prop where
  | source {registered registered' : SourcePartial} : registered.text = registered'.text →
    Alike (.source registered) (.source registered')
  | compiled (template : Template) : Alike (.compiled template) (.compiled template)
  | function (render : Value φ → Except RenderError String) : Alike (.function render) (.function render)

theorem Partial.Alike.refl {φ : Type} (included : Partial φ) : included.Alike included := by
  cases included with
  | source registered => exact .source rfl
  | compiled template => exact .compiled template
  | function render => exact .function render

/-- The same environment, perhaps with other numbers for its partials. -/
structure Environment.Alike {φ : Type} (environment environment' : Environment φ) : Prop where
  helpers : environment.helpers = environment'.helpers
  partials : Table.Rel Partial.Alike environment.partials environment'.partials
  data : environment.data = environment'.data

theorem Environment.Alike.refl {φ : Type} (environment : Environment φ) : environment.Alike environment :=
  ⟨rfl, .refl Partial.Alike.refl _, rfl⟩

/-! ### Rendering -/

variable {φ : Type}

/-- Two runs do the same and keep the same events, and the first keeps its slots sound, which the
second does not have. -/
def Run.keeping (texts : Nat → String) (bound : Nat) :
    Run.Congruence (Cache × List (Event φ)) (List (Event φ)) where
  Related run run' := ∀ cache events, cache.Sound texts bound → ∃ after : Cache, after.Sound texts bound ∧
    run (cache, events) = ((run' events).1, after, (run' events).2)
  pure_related _ := fun cache _ hcache => ⟨cache, hcache, rfl⟩
  fail_related _ := fun cache _ hcache => ⟨cache, hcache, rfl⟩
  bind_related := by
    intro α β run run' next next' hrun hnext cache events hcache
    obtain ⟨between, hbetween, heq⟩ := hrun cache events hcache
    rw [Run.bind_apply, Run.bind_apply, heq]
    rcases run' events with ⟨result | error | _, events⟩
    · exact hnext result between events hbetween
    · exact ⟨between, hbetween, rfl⟩
    · exact ⟨between, hbetween, rfl⟩
  attempt_related := by
    intro α run run' hrun cache events hcache
    obtain ⟨after, hafter, heq⟩ := hrun cache events hcache
    refine ⟨after, hafter, ?_⟩
    rw [Run.attempt, Run.attempt, heq]
    rcases run' events with ⟨result | error | _, events⟩ <;> rfl

theorem Run.compile_keeping {texts : Nat → String} {bound : Nat} {registered registered' : SourcePartial}
    (hnumbered : registered.Numbered texts bound) (htext : registered.text = registered'.text) (trackData : Bool) :
    (Run.keeping texts bound).Related (Run.compile (Host.caching : Host φ _) registered trackData)
      (Run.compile Host.recording registered' trackData) := by
  intro cache events hcache
  obtain ⟨hcompile, hafter⟩ := hcache.compile hnumbered trackData
  refine ⟨(cache.compile registered trackData).2, hafter, ?_⟩
  simp only [Run.compile, Host.caching, Host.recording, Host.noting, hcompile, htext]
  cases Template.compile registered'.text (SourcePartial.options trackData) <;> rfl

/-- Templates that are kept in sound slots render like templates that are compiled each time. -/
theorem Template.run_keeping [Callable φ] {texts : Nat → String} {bound : Nat}
    {environment environment' : Environment φ} (halike : environment.Alike environment')
    (hnumbered : ∀ name registered, (name, .source registered) ∈ environment.partials →
      registered.Numbered texts bound)
    (limit : Nat) (template : Template) (context : Value φ) (data : Option (Table (Value φ))) :
    (Run.keeping texts bound).Related (Template.run .caching environment limit template context data)
      (Template.run .recording environment' limit template context data) := by
  induction limit generalizing template context data with
  | zero => exact fun cache _ hcache => ⟨cache, hcache, rfl⟩
  | succ limit ih =>
    have hnote : ∀ event, (Run.keeping texts bound).Related
        (Run.note (Host.caching : Host φ _) event) (Run.note Host.recording event) :=
      fun _ cache _ hcache => ⟨cache, hcache, rfl⟩
    have hlinked : Renderer.Linked (Run.keeping texts bound)
        ⟨.caching, environment, template.options, Template.run .caching environment limit⟩
        ⟨.recording, environment', template.options, Template.run .recording environment' limit⟩ :=
      ⟨halike.helpers, rfl, hnote⟩
    refine hlinked.ops ?_ _ template.ops
    intro scope name context
    rw [Renderer.inclusion.eq_def, Renderer.inclusion.eq_def]
    have hfind := halike.partials.find? name
    have hmem : ∀ included, environment.partials.find? name = some included →
        (name, included) ∈ environment.partials := fun _ => Table.mem_of_find?
    generalize environment.partials.find? name = found at hfind hmem
    generalize environment'.partials.find? name = found' at hfind
    cases hfind with
    | none => exact (Run.keeping texts bound).fail_related _
    | some hincluded =>
      cases hincluded with
      | source htext =>
        refine (Run.keeping texts bound).bind_related ?_ fun template => ih template _ _
        exact Run.compile_keeping (hnumbered name _ (hmem _ rfl)) htext _
      | compiled template => exact ih template _ _
      | function render =>
        exact (Run.keeping texts bound).bind_related (hnote _) fun _ =>
          (Run.keeping texts bound).ofExcept_related _

end Stencil
