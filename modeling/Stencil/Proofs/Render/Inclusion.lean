import Mathlib.Logic.Relation
import Stencil.Proofs.Markup.Derivation
import Stencil.Proofs.Render.Interpretation

/-!
# Which partials nodes lead to

Partials name each other in their tags. The names in the tags of nodes, and the names in the tags of
the partials with these names, and so on, are those that the nodes can lead to. A partial that is a
text has the nodes that it is parsed into; a function has none, and leads nowhere.
-/

namespace Stencil

variable {φ σ : Type}

/-- The template of a partial, for a tag in a template that tracks data or does not. -/
def ParsedPartial.template? (trackData : Bool) : ParsedPartial φ → Option ParsedTemplate
  | .source registered =>
    match parse registered.text with
    | .ok nodes => some ⟨nodes, SourcePartial.options trackData⟩
    | .error _ => none
  | .template parsed => some parsed
  | .function _ => none

namespace ParsedEnvironment

variable (environment : ParsedEnvironment φ)

/-- A template is that of the partial of a name, for one way of tracking data. -/
def Provides (name : String) (template : ParsedTemplate) : Prop :=
  ∃ included trackData, environment.partials.find? name = some included ∧
    included.template? trackData = some template

def Includes (outer inner : String) : Prop :=
  ∃ template context, environment.Provides outer template ∧ Node.Among (.inclusion inner context) template.nodes

/-- Nodes lead to a name: it is in one of their tags, or in a tag of a partial that they lead to. -/
def Reaches (nodes : List Node) (name : String) : Prop :=
  ∃ first context, Node.Among (.inclusion first context) nodes ∧
    Relation.ReflTransGen environment.Includes first name

variable {environment} {nodes : List Node} {name : String}

theorem Reaches.of_among {context : Option Expr} (h : Node.Among (.inclusion name context) nodes) :
    environment.Reaches nodes name :=
  ⟨name, context, h, .refl⟩

theorem Reaches.transGen {template : ParsedTemplate} {next : String} (hprovides : environment.Provides name template)
    (h : environment.Reaches template.nodes next) : Relation.TransGen environment.Includes name next := by
  obtain ⟨first, context, hfirst, hnext⟩ := h
  exact Relation.TransGen.head' ⟨template, context, hprovides, hfirst⟩ hnext

theorem Reaches.through {context : Option Expr} {template : ParsedTemplate} {next : String}
    (hname : Node.Among (.inclusion name context) nodes) (hprovides : environment.Provides name template)
    (h : environment.Reaches template.nodes next) : environment.Reaches nodes next :=
  ⟨name, context, hname, (h.transGen hprovides).to_reflTransGen⟩

/-- What a tag for a partial comes to. The name is not there, or its text does not parse, or a
function is called, or the template of the partial is rendered. The template of a text tracks data
if the one with the tag does. -/
theorem renderPartial_cases (environment : ParsedEnvironment φ) (note : Event φ → σ → σ) (trackData : Bool)
    (name : String) :
    (environment.partials.find? name = none ∧ ∀ nested,
      environment.renderPartial note nested trackData name = fun _ _ => Run.fail (.partialNotFound name)) ∨
    (∃ registered error, environment.partials.find? name = some (.source registered) ∧
      parse registered.text = .error error ∧ ∀ nested,
        environment.renderPartial note nested trackData name = fun _ _ => Run.fail (.unparsable error)) ∨
    (∃ call, environment.partials.find? name = some (.function call) ∧ ∀ nested,
      environment.renderPartial note nested trackData name =
        fun context _ state => Run.ofExcept (call context) (note (.included context) state)) ∨
    ∃ template, environment.Provides name template ∧
      (template.options.data = trackData ∨ environment.partials.find? name = some (.template template)) ∧
      ∀ nested, environment.renderPartial note nested trackData name = nested template := by
  cases hfound : environment.partials.find? name with
  | none =>
    refine .inl ⟨rfl, fun nested => ?_⟩
    funext context data
    rw [renderPartial, hfound]
  | some included =>
    cases included with
    | source registered =>
      cases hparse : parse registered.text with
      | error error =>
        refine .inr (.inl ⟨registered, error, rfl, hparse, fun nested => ?_⟩)
        funext context data
        simp only [renderPartial, hfound, hparse]
      | ok nodes =>
        have htemplate : (ParsedPartial.source registered : ParsedPartial φ).template? trackData =
            some ⟨nodes, SourcePartial.options trackData⟩ := by
          rw [ParsedPartial.template?, hparse]
        refine .inr (.inr (.inr ⟨_, ⟨_, trackData, hfound, htemplate⟩, .inl rfl, fun nested => ?_⟩))
        funext context data
        simp only [renderPartial, hfound, hparse]
        rfl
    | template parsed =>
      refine .inr (.inr (.inr ⟨parsed, ⟨_, trackData, hfound, rfl⟩, .inr rfl, fun nested => ?_⟩))
      funext context data
      rw [renderPartial, hfound]
    | function call =>
      refine .inr (.inr (.inl ⟨call, rfl, fun nested => ?_⟩))
      funext context data
      rw [renderPartial, hfound]

/-- No partial includes itself, however indirectly, if each has a larger rank than those in its
tags. -/
theorem not_transGen_of_rank (rank : String → Nat)
    (h : ∀ outer inner, environment.Includes outer inner → rank inner < rank outer) (name : String) :
    ¬Relation.TransGen environment.Includes name name := by
  have hless : ∀ other, Relation.TransGen environment.Includes name other → rank other < rank name := by
    intro other hother
    induction hother with
    | single hincludes => exact h _ _ hincludes
    | tail _ hincludes ih => exact (h _ _ hincludes).trans ih
  intro hcycle
  exact Nat.lt_irrefl _ (hless name hcycle)

end ParsedEnvironment

end Stencil
