import Stencil.Demo.Page
import Stencil.Proofs.Markup.Heads
import Stencil.Proofs.Render.Comparison
import Stencil.Proofs.Render.Inclusion
import Stencil.Proofs.Table

/-!
# Which helpers a template asks for

A tag asks the helpers for its name if the name is simple and, where only known helpers may be
called, known. Besides, a tag may ask for one of the two hooks. A template that is rendered asks for
nothing else, and neither do its partials beyond what their own tags ask for. So two tables of
helpers that agree on these names render the same.

A name is known by the segment of a path, and a helper is found by the text of it. For a simple path
that was parsed, these are the same.
-/

namespace Stencil

variable {φ σ : Type}

namespace ParsedTemplate

/-- The path heads a tag of the template, at any depth. -/
def HasHead (template : ParsedTemplate) (path : Path) : Prop :=
  ∃ (node : Node) (call : Call), node.Among template.nodes ∧ node.call? = some call ∧ call.head = .path path

/-- The names for which tags of the template may ask the helpers. -/
inductive Asks (template : ParsedTemplate) : String → Prop where
  | head {path : Path} : template.HasHead path → path.isSimple = true →
    (template.options.knownHelpersOnly = true → template.options.isKnown path.text = true) →
    Asks template path.text
  | helperMissing : Asks template Builtin.helperMissing.name
  | blockHelperMissing : template.options.knownHelpersOnly = false →
    Asks template Builtin.blockHelperMissing.name

/-- The names for which the tags of the template, or of a partial that it leads to, may ask the
helpers. -/
def Consults (template : ParsedTemplate) (environment : ParsedEnvironment φ) (name : String) : Prop :=
  template.Asks name ∨ ∃ inner included, environment.Reaches template.nodes inner ∧
    environment.Provides inner included ∧ included.Asks name

/-- The nodes of the template were read from a text. -/
def IsParsed (template : ParsedTemplate) : Prop :=
  ∃ source, parse source = .ok template.nodes

theorem Consults.of_provides {template included : ParsedTemplate} {environment : ParsedEnvironment φ}
    {inner name : String} {context : Option Expr} (h : included.Consults environment name)
    (hinner : Node.Among (.inclusion inner context) template.nodes)
    (hprovides : environment.Provides inner included) : template.Consults environment name := by
  rcases h with hasks | ⟨further, last, hreaches, hlast, hasks⟩
  · exact .inr ⟨inner, included, .of_among hinner, hprovides, hasks⟩
  · exact .inr ⟨further, last, .through hinner hprovides hreaches, hlast, hasks⟩

/-- A template does not ask for a name that heads none of its tags by itself, or that is not known
where only known helpers may be called. -/
theorem Asks.ne {template : ParsedTemplate} {name other : String} (h : template.Asks other)
    (hmissing : name ≠ Builtin.helperMissing.name) (hsection : name ≠ Builtin.blockHelperMissing.name)
    (hunused : (∀ path, template.HasHead path → path.isSimple = true → path.text ≠ name) ∨
      (template.options.knownHelpersOnly = true ∧ template.options.isKnown name = false)) :
    other ≠ name := by
  cases h with
  | helperMissing => exact hmissing.symm
  | blockHelperMissing => exact hsection.symm
  | head hhead hsimple hknown =>
    rcases hunused with hheads | ⟨honly, hunknown⟩
    · exact hheads _ hhead hsimple
    · rintro rfl
      rw [hknown honly] at hunknown
      cases hunknown

end ParsedTemplate

theorem ParsedEnvironment.Provides.isParsed {environment : ParsedEnvironment φ} {name : String}
    {template : ParsedTemplate} (h : environment.Provides name template)
    (hpartials : ∀ name parsed, (name, .template parsed) ∈ environment.partials → parsed.IsParsed) :
    template.IsParsed := by
  obtain ⟨included, trackData, hfound, htemplate⟩ := h
  cases included with
  | source registered =>
    rw [ParsedPartial.template?] at htemplate
    split at htemplate
    · next nodes hparse =>
      obtain rfl := Option.some.inj htemplate
      exact ⟨registered.text, hparse⟩
    · cases htemplate
  | template parsed =>
    obtain rfl := Option.some.inj htemplate
    exact hpartials name _ (Table.mem_of_find? hfound)
  | function render => cases htemplate

/-! ### Tags -/

variable [Callable φ]

theorem Interpreter.meaning_eq_of_helpers {left right : Interpreter φ σ} (hoptions : left.options = right.options)
    (hmissing : left.hook .helperMissing = right.hook .helperMissing)
    (hsection : left.options.knownHelpersOnly = false →
      left.hook .blockHelperMissing = right.hook .blockHelperMissing)
    {path : Path}
    (hpath : left.consults path = true → left.helpers.find? path.text = right.helpers.find? path.text)
    (isBlock : Bool) (call : Call) (scope : Scope φ) :
    left.meaning isBlock path call scope = right.meaning isBlock path call scope := by
  have hconsults : left.consults path = right.consults path := by
    rw [consults, consults, hoptions]
  have hfound : (if right.consults path then left.helpers.find? path.text else none) =
      if right.consults path then right.helpers.find? path.text else none := by
    split
    · next hasks => exact hpath (hconsults.trans hasks)
    · rfl
  have hhook : (if right.options.knownHelpersOnly then .builtin .blockHelperMissing
        else left.hook .blockHelperMissing) =
      if right.options.knownHelpersOnly then .builtin .blockHelperMissing
        else right.hook .blockHelperMissing := by
    split
    · rfl
    · next honly => exact hsection (by simpa [hoptions] using honly)
  have hparam : left.param scope = right.param scope := by
    funext expr
    cases expr with
    | literal literal => rfl
    | path path => rw [param, param, hoptions]
  simp only [meaning, hconsults, hoptions, hfound, hhook, hparam, hmissing]

/-! ### Templates -/

section

variable {environment : ParsedEnvironment φ} {helpers : Table (Helper φ)} {template : ParsedTemplate}

/-- A template whose tags ask for nothing but what two tables agree on is interpreted alike with
both. -/
theorem ParsedTemplate.interpret_eq_of_helpers (note : Event φ → σ → σ)
    (hpartials : ∀ name parsed, (name, .template parsed) ∈ environment.partials → parsed.IsParsed)
    (limit : Nat) (hparsed : template.IsParsed)
    (hagree : ∀ name, template.Consults environment name →
      environment.helpers.find? name = helpers.find? name) :
    template.interpret note environment limit = template.interpret note { environment with helpers } limit := by
  induction limit generalizing template with
  | zero => rfl
  | succ limit ih =>
    have hhook : ∀ builtin : Builtin, template.Asks builtin.name →
        (environment.helpers.find? builtin.name).getD (.builtin builtin) =
          (helpers.find? builtin.name).getD (.builtin builtin) := by
      intro builtin hasks
      rw [hagree _ (.inl hasks)]
    funext context data
    rw [interpret_succ, interpret_succ]
    apply Interpreter.nodes_eq_of_meaning
    · rfl
    · rfl
    · intro node call path hnode hcall hhead isBlock scope
      apply Interpreter.meaning_eq_of_helpers
      · rfl
      · exact hhook _ .helperMissing
      · intro honly
        exact hhook _ (.blockHelperMissing honly)
      · intro hconsults
        rw [Interpreter.consults, Bool.and_eq_true] at hconsults
        obtain ⟨hsimple, hknown⟩ := hconsults
        obtain ⟨source, hsource⟩ := hparsed
        rw [segments_of_parse hsource hnode hcall hhead hsimple, List.headD_cons] at hknown
        refine hagree _ (.inl (.head ⟨node, call, hnode, hcall, hhead⟩ hsimple fun honly => ?_))
        have hknown : (!template.options.knownHelpersOnly || template.options.isKnown path.text) = true := hknown
        simpa [honly] using hknown
    · intro name inner hinner
      show environment.renderPartial note _ _ name = environment.renderPartial note _ _ name
      rcases environment.renderPartial_cases note template.options.data name with
        ⟨-, hrender⟩ | ⟨_, _, -, -, hrender⟩ | ⟨_, -, hrender⟩ | ⟨included, hprovides, -, hrender⟩
      · rw [hrender, hrender]
      · rw [hrender, hrender]
      · rw [hrender, hrender]
      · rw [hrender, hrender]
        exact ih (hprovides.isParsed hpartials) fun other hother => hagree other (hother.of_provides hinner hprovides)

/-- **A template asks for its names only.** Take two tables of helpers that agree on every name that
the template, or a partial that it leads to, may ask for: the simple heads of tags, of which only
the known ones if only known helpers may be called, and the hooks, of which that for sections is not
asked for if only known helpers may be called. Then the template renders the same with both, calls
and all. So without tags for partials, to register a helper under a name that heads no tag by
itself, or that is not known where only known helpers may be called, changes nothing, unless it is
the name of a hook. -/
theorem render_eq_of_consults_agree
    (hpartials : ∀ name parsed, (name, .template parsed) ∈ environment.partials → parsed.IsParsed)
    (hparsed : template.IsParsed) (context : Value φ) :
    (∀ helpers : Table (Helper φ),
      (∀ name, template.Consults environment name → environment.helpers.find? name = helpers.find? name) →
      (∀ (note : Event φ → σ → σ) limit data,
        template.compile.run (.noting note) environment.compile limit context data =
          template.compile.run (.noting note) (ParsedEnvironment.compile { environment with helpers }) limit
            context data) ∧
      template.compile.render context environment.compile =
        template.compile.render context (ParsedEnvironment.compile { environment with helpers })) ∧
    ∀ (name : String) (helper : Helper φ), name ≠ Builtin.helperMissing.name →
      name ≠ Builtin.blockHelperMissing.name →
      (∀ included expr, ¬Node.Among (.inclusion included expr) template.nodes) →
      ((∀ path, template.HasHead path → path.isSimple = true → path.text ≠ name) ∨
        (template.options.knownHelpersOnly = true ∧ template.options.isKnown name = false)) →
      template.compile.render context (ParsedEnvironment.compile
          { environment with helpers := environment.helpers.insert name helper }) =
        template.compile.render context environment.compile := by
  have hrun : ∀ {τ : Type} (note : Event φ → τ → τ) (helpers : Table (Helper φ)),
      (∀ name, template.Consults environment name → environment.helpers.find? name = helpers.find? name) →
      ∀ limit, template.compile.run (.noting note) environment.compile limit =
        template.compile.run (.noting note) (ParsedEnvironment.compile { environment with helpers }) limit := by
    intro τ note helpers hagree limit
    rw [run_compile, run_compile]
    exact ParsedTemplate.interpret_eq_of_helpers note hpartials limit hparsed hagree
  have hrender : ∀ helpers : Table (Helper φ),
      (∀ name, template.Consults environment name → environment.helpers.find? name = helpers.find? name) →
      template.compile.render context environment.compile =
        template.compile.render context (ParsedEnvironment.compile { environment with helpers }) := by
    intro helpers hagree
    have hplain := hrun (fun _ (state : Unit) => state) helpers hagree Template.nestingLimit
    exact congrArg Prod.fst (congrFun (congrFun (congrFun hplain context) environment.data) ())
  constructor
  · intro helpers hagree
    exact ⟨fun note limit data => congrFun (congrFun (hrun note helpers hagree limit) context) data,
      hrender helpers hagree⟩
  · intro name helper hmissing hsection hinclusions hunused
    refine (hrender _ fun other hother => ?_).symm
    refine (Table.find?_insert_of_ne ?_ helper environment.helpers).symm
    rcases hother with hasks | ⟨_, _, ⟨first, expr, hfirst, -⟩, -⟩
    · exact hasks.ne hmissing hsection hunused
    · exact absurd hfirst (hinclusions first expr)

end

/-- A helper named like the last part of a compound head changes neither a template with that head
nor one that includes it. -/
theorem render_eq_of_consults_agree_title :
    let single : ParsedTemplate :=
      ⟨[.mustache ⟨.path ⟨"page.title", 0, false, ["page", "title"]⟩, [], [], ⟨2, 12⟩⟩ true], {}⟩
    let listed : ParsedTemplate :=
      ⟨[.inclusion "row" none,
        .mustache ⟨.path ⟨"page.title", 0, false, ["page", "title"]⟩, [], [], ⟨11, 21⟩⟩ true], {}⟩
    let environment : ParsedEnvironment Empty := { partials := [("row", .template single)] }
    let loud : Helper Empty := .custom fun _ => pure (.string "!")
    let changed : ParsedEnvironment Empty :=
      { environment with helpers := environment.helpers.insert "title" loud }
    ∀ context : Value Empty,
      listed.compile.render context environment.compile = listed.compile.render context changed.compile ∧
        single.compile.render context changed.compile = single.compile.render context environment.compile := by
  intro single listed environment loud changed context
  have hsingle : single.IsParsed := ⟨"\x7b\x7bpage.title\x7d\x7d", rfl⟩
  have hlisted : listed.IsParsed := ⟨"\x7b\x7b> row\x7d\x7d\x7b\x7bpage.title\x7d\x7d", rfl⟩
  have hpartials : ∀ name parsed, (name, .template parsed) ∈ environment.partials → parsed = single :=
    fun _ _ hmem => ParsedPartial.template.inj (Prod.mk.inj (List.mem_singleton.1 hmem)).2
  have hparsed : ∀ name parsed, (name, .template parsed) ∈ environment.partials → parsed.IsParsed :=
    fun name parsed hmem => hpartials name parsed hmem ▸ hsingle
  have hheads : ∀ template ∈ [single, listed], ∀ path, template.HasHead path → path.isSimple = true →
      path.text ≠ "title" := by
    rintro template htemplate path ⟨node, call, hnode, hcall, hhead⟩
    simp only [List.mem_cons, List.not_mem_nil, or_false] at htemplate
    rcases htemplate with rfl | rfl <;>
      simp only [single, listed, Node.among_cons_iff, Node.within_iff, Node.inside, Node.not_among_nil,
        or_false] at hnode
    · obtain rfl := hnode
      obtain rfl := Option.some.inj hcall
      obtain rfl := Expr.path.inj hhead
      decide
    · rcases hnode with rfl | rfl
      · cases hcall
      · obtain rfl := Option.some.inj hcall
        obtain rfl := Expr.path.inj hhead
        decide
  have hasks : ∀ template ∈ [single, listed], ∀ name, template.Asks name → name ≠ "title" :=
    fun template htemplate _ hasks => hasks.ne (by decide) (by decide) (.inl (hheads template htemplate))
  obtain ⟨hagree, -⟩ := render_eq_of_consults_agree (σ := Unit) hparsed hlisted context
  obtain ⟨-, hinsert⟩ := render_eq_of_consults_agree (σ := Unit) hparsed hsingle context
  constructor
  · refine (hagree _ fun name hconsults => (Table.find?_insert_of_ne ?_ loud _).symm).2
    rcases hconsults with hname | ⟨inner, included, -, ⟨found, trackData, hfound, htemplate⟩, hname⟩
    · exact hasks listed (.tail _ (.head _)) name hname
    · obtain rfl : found = .template single := (Prod.mk.inj (List.mem_singleton.1 (Table.mem_of_find? hfound))).2
      obtain rfl := Option.some.inj htemplate
      exact hasks single (.head _) name hname
  · refine hinsert "title" loud (by decide) (by decide) ?_ (.inl (hheads single (.head _)))
    intro included expr hincluded
    simp only [single, Node.among_cons_iff, Node.within_iff, Node.inside, Node.not_among_nil, or_false] at hincluded
    cases hincluded

end Stencil
