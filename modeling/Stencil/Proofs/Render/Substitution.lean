import Stencil.Demo.Page
import Stencil.Proofs.Render.Laws
import Stencil.Proofs.Value.Equality

/-!
# Equal contexts

Equal contexts without functions render equally if all helpers are those of the library and no
partial is a function. They need not be the same, since they may differ in the signs of zeros. So
the rendering is followed with two contexts at once: what is looked up in both is equal, the helpers
have their bodies rendered with equal contexts in the same order, and what they give back is the
same.
-/

namespace Stencil

variable {φ σ : Type} [BEq φ]

/-! ### Values and scopes -/

/-- Equal values without functions. -/
structure Value.Alike (left right : Value φ) : Prop where
  same : left.same right = true
  functionFree : left.FunctionFree

namespace Value.Alike

theorem of_parts_eq_nil {value : Value φ} (hsame : value.same value = true) (hfunction : value.isFunction = false)
    (hparts : value.parts = []) : value.Alike value :=
  ⟨hsame, hfunction, by simp [hparts]⟩

theorem null : (null : Value φ).Alike .null :=
  of_parts_eq_nil rfl rfl rfl

theorem string (text : String) : (string text : Value φ).Alike (.string text) :=
  of_parts_eq_nil (same_iff.2 (.string text)) rfl rfl

theorem literal (literal : Literal) : (literal.value : Value φ).Alike literal.value := by
  cases literal with
  | string content => exact string content
  | boolean value => exact of_parts_eq_nil (same_iff.2 (.boolean value)) rfl rfl
  | number text =>
    rw [Literal.value]
    split
    · next read _ => exact of_parts_eq_nil (same_iff.2 (.number read.same_refl)) rfl rfl
    · exact string text

variable {left right : Value φ} (h : left.Alike right)

include h

theorem isFunction_eq_false : left.isFunction = false ∧ right.isFunction = false := by
  obtain ⟨hsame, ⟨hleft, -⟩⟩ := h
  refine ⟨hleft, ?_⟩
  cases same_iff.1 hsame with
  | function => nomatch hleft
  | _ => rfl

theorem get? (name : String) : Option.Rel Alike (left.get? name) (right.get? name) := by
  have hsame := get?_of_same h.same name
  generalize hleft : left.get? name = found at hsame
  generalize right.get? name = found' at hsame
  cases hsame with
  | none => exact .none
  | some hsame => exact .some ⟨hsame, h.functionFree.part (mem_parts_of_get? hleft)⟩

theorem parts : List.Forall₂ Alike left.parts right.parts := by
  have hpart : ∀ part ∈ left.parts, ∀ part', part.same part' = true → part.Alike part' :=
    fun part hpart part' hsame => ⟨hsame, h.functionFree.part hpart⟩
  cases same_iff.1 h.same with
  | null | boolean | number | string | safe | function => exact .nil
  | array hitems => exact forall₂_imp_of_mem hitems hpart
  | object hmembers =>
    refine List.forall₂_map_left_iff.2 (List.forall₂_map_right_iff.2 ?_)
    refine forall₂_imp_of_mem hmembers fun member hmember member' hentry => ?_
    exact hpart _ (List.mem_map_of_mem hmember) _ hentry.2

omit h in
theorem descend? (h : left.Alike right) (names : List String) :
    Option.Rel Alike (Value.descend? names left) (Value.descend? names right) := by
  induction names generalizing left right with
  | nil => exact .some h
  | cons name names ih =>
    have hmember := h.get? name
    rw [Value.descend?, Value.descend?]
    generalize left.get? name = found at hmember ⊢
    generalize right.get? name = found' at hmember ⊢
    cases hmember with
    | none => exact .none
    | some hmember => exact ih hmember

omit h in
theorem getD {found found' : Option (Value φ)} (h : Option.Rel Alike found found') :
    (found.getD .null).Alike (found'.getD .null) := by
  cases h with
  | none => exact .null
  | some h => exact h

end Value.Alike

structure Scope.Alike (left right : Scope φ) : Prop where
  contexts : List.Forall₂ Value.Alike (left.current :: left.outer) (right.current :: right.outer)
  data : left.data = right.data

namespace Scope.Alike

variable {left right : Scope φ} (h : left.Alike right)

include h

theorem current : left.current.Alike right.current :=
  (List.forall₂_cons.1 h.contexts).1

theorem find? (path : Path) : Option.Rel Value.Alike (left.find? path) (right.find? path) := by
  have hframe : Option.Rel Value.Alike (left.frame? path.depth) (right.frame? path.depth) :=
    forall₂_getElem? h.contexts path.depth
  rw [Scope.find?, Scope.find?]
  generalize left.frame? path.depth = frame at hframe ⊢
  generalize right.frame? path.depth = frame' at hframe ⊢
  cases hframe with
  | none => exact .none
  | some hframe => exact hframe.descend? path.segments

theorem resolve (param : Param) : (left.resolve param).Alike (right.resolve param) := by
  cases param with
  | literal literal => exact .literal literal
  | path path => exact .getD (h.find? path)
  | source text depth => exact .string text

theorem enter {context context' : Option (Value φ)} (hcontext : Option.Rel Value.Alike context context')
    (data : Option (Table (Value φ))) : (left.enter context data).Alike (right.enter context' data) := by
  refine ⟨.cons ?_ h.contexts, ?_⟩
  · cases hcontext with
    | none => exact h.current
    | some hcontext => exact hcontext
  · rw [Scope.enter, Scope.enter, h.data]

end Scope.Alike

/-! ### Helpers at work -/

structure BodyRequest.Alike (left right : BodyRequest φ) : Prop where
  inverse : left.inverse = right.inverse
  context : Option.Rel Value.Alike left.context right.context
  data : left.data = right.data

/-- Actions that ask for the same bodies with equal contexts, whatever they are answered, and have
the same result. -/
inductive Action.Alike {α : Type} : Action φ α → Action φ α → Prop where
  | done (result : α) : Alike (.done result) (.done result)
  | fail (error : RenderError) : Alike (.fail error) (.fail error)
  | body {left right : BodyRequest φ} {next next' : Except RenderError String → Action φ α} : left.Alike right →
    (∀ answer, Alike (next answer) (next' answer)) → Alike (.body left next) (.body right next')

namespace Action.Alike

variable {α β : Type}

theorem bind {left right : Action φ α} (h : left.Alike right) {next next' : α → Action φ β}
    (hnext : ∀ result, (next result).Alike (next' result)) : (left >>= next).Alike (right >>= next') := by
  induction h with
  | done result => exact hnext result
  | fail error => exact .fail error
  | body hrequest _ ih => exact .body hrequest ih

theorem map {left right : Action φ α} (h : left.Alike right) (change : α → β) :
    (change <$> left).Alike (change <$> right) :=
  h.bind fun result => .done (change result)

theorem render {left right : BodyRequest φ} (h : left.Alike right) :
    (Action.render left).Alike (Action.render right) := by
  refine .body h fun answer => ?_
  cases answer with
  | ok text => exact .done text
  | error error => exact .fail error

theorem renderBlock {context context' : Option (Value φ)} (h : Option.Rel Value.Alike context context') :
    (Action.renderBlock context).Alike (Action.renderBlock context') :=
  .render ⟨rfl, h, rfl⟩

theorem renderInverse : (Action.renderInverse : Action φ String).Alike .renderInverse :=
  .render ⟨rfl, .none, rfl⟩

end Action.Alike

namespace Builtin

theorem renderEach_alike {lefts rights : List (Value φ)} (h : List.Forall₂ Value.Alike lefts rights) :
    (renderEach lefts).Alike (renderEach rights) := by
  induction h with
  | nil => exact .done ""
  | cons hitem _ ih =>
    rw [renderEach, renderEach]
    exact (Action.Alike.renderBlock (.some hitem)).bind fun text => ih.bind fun rest => .done (text ++ rest)

theorem renderItems_alike {lefts rights : List (Value φ)} (h : List.Forall₂ Value.Alike lefts rights) :
    (renderItems lefts).Alike (renderItems rights) := by
  cases h with
  | nil => exact .renderInverse
  | cons hitem hrest => exact renderEach_alike (.cons hitem hrest)

theorem renderSection_alike {left right : Value φ} (h : left.Alike right) :
    (renderSection left).Alike (renderSection right) := by
  have hsingle : (if left.isTruthy then Action.renderBlock (some left) else Action.renderInverse).Alike
      (if right.isTruthy then Action.renderBlock (some right) else Action.renderInverse) := by
    rw [← Value.isTruthy_of_same h.same]
    split
    · exact .renderBlock (.some h)
    · exact .renderInverse
  have hparts := h.parts
  cases Value.same_iff.1 h.same with
  | array => exact renderItems_alike hparts
  | _ => exact hsingle

/-- A helper of the library asks for the same bodies with equal contexts if its parameters are
equal. -/
theorem run_alike (builtin : Builtin) {invocation invocation' : Invocation φ}
    (h : List.Forall₂ Value.Alike invocation.params invocation'.params) :
    (builtin.run invocation).Alike (builtin.run invocation') := by
  have hfirst : (invocation.params.headD .null).Alike (invocation'.params.headD .null) := by
    generalize invocation.params = params at h
    generalize invocation'.params = params' at h
    cases h with
    | nil => exact .null
    | cons hfirst _ => exact hfirst
  simp only [run]
  generalize invocation.params.headD .null = first at hfirst ⊢
  generalize invocation'.params.headD .null = first' at hfirst ⊢
  cases builtin with
  | ifHelper =>
    rw [← Value.isTruthy_of_same hfirst.same]
    refine .map ?_ _
    split
    · exact .renderBlock .none
    · exact .renderInverse
  | unlessHelper =>
    rw [← Value.isTruthy_of_same hfirst.same]
    refine .map ?_ _
    split
    · exact .renderInverse
    · exact .renderBlock .none
  | eachHelper =>
    refine .map ?_ _
    have hparts := hfirst.parts
    cases Value.same_iff.1 hfirst.same with
    | array | object => exact renderItems_alike hparts
    | _ => exact .renderInverse
  | withHelper =>
    rw [← Value.isNull_of_same hfirst.same]
    refine .map ?_ _
    split
    · exact .renderInverse
    · exact .renderBlock (.some hfirst)
  | helperMissing => exact .done Value.null
  | blockHelperMissing => exact .map (renderSection_alike hfirst) _

end Builtin

/-! ### Renderers -/

/-- A body that is rendered alike in scopes with equal contexts. -/
def Body.Respectful (body : Body φ σ) : Prop :=
  ∀ left right : Scope φ, left.Alike right → body left = body right

def Bodies.Respectful (bodies : Bodies φ σ) : Prop :=
  ∀ inverse, ∀ body ∈ bodies.find? inverse, Body.Respectful body

theorem Bodies.Respectful.none : ({} : Bodies φ σ).Respectful := by
  intro inverse body hbody
  cases inverse <;> nomatch hbody

theorem Bodies.Respectful.some {program : Body φ σ} {inverse : Option (Body φ σ)} (hprogram : Body.Respectful program)
    (hinverse : ∀ body ∈ inverse, Body.Respectful body) : Bodies.Respectful ⟨program, inverse⟩ := by
  intro isInverse body hbody
  cases isInverse with
  | false =>
    obtain rfl := Option.some.inj hbody
    exact hprogram
  | true => exact hinverse body hbody

/-- A renderer that takes no notes, with the helpers of the library only, without partials that are
functions, and with partials that are rendered alike in equal contexts. -/
structure Renderer.Respectful (renderer : Renderer φ σ) : Prop where
  note : ∀ event, Run.note renderer.host event = pure ()
  helpers : ∀ entry ∈ renderer.environment.helpers, entry.2.isBuiltin = true
  partials : ∀ entry ∈ renderer.environment.partials, ∀ render, entry.2 ≠ .function render
  nested : ∀ template (left right : Value φ) data, left.Alike right →
    renderer.nested template left data = renderer.nested template right data

/-- The same helper of the library, or equal values. -/
inductive Target.Alike : Target φ → Target φ → Prop where
  | helper (builtin : Builtin) : Alike (.helper (.builtin builtin)) (.helper (.builtin builtin))
  | value {found found' : Option (Value φ)} : Option.Rel Value.Alike found found' →
    Alike (.value found) (.value found')

omit [BEq φ] in
theorem Helper.exists_of_isBuiltin {helper : Helper φ} (h : helper.isBuiltin = true) :
    ∃ builtin, helper = .builtin builtin := by
  cases helper with
  | builtin builtin => exact ⟨builtin, rfl⟩
  | custom => nomatch h

theorem Target.Alike.ofFound [Callable φ] {found found' : Option (Value φ)}
    (h : Option.Rel Value.Alike found found') : (Target.ofFound found).Alike (.ofFound found') := by
  have hvalue : ∀ value : Value φ, value.isFunction = false → Target.ofFound (some value) = .value (some value) := by
    refine fun value hfunction => Target.ofFound_of_value ?_
    rintro handle ⟨⟩
    nomatch hfunction
  cases h with
  | none => exact .value .none
  | some h =>
    obtain ⟨hleft, hright⟩ := h.isFunction_eq_false
    rw [hvalue _ hleft, hvalue _ hright]
    exact .value (.some h)

omit [BEq φ] in
/-- The name of a tag stands for a helper in every scope, or for what it names there. -/
theorem Renderer.target_cases [Callable φ] (renderer : Renderer φ σ) (call : Invocable) :
    (∃ helper, renderer.environment.helpers.find? call.name = some helper ∧
      ∀ scope, renderer.target call scope = .helper helper) ∨
    ∀ scope, renderer.target call scope = .ofFound (scope.find? call.path) := by
  by_cases hresolution : call.resolution = .property
  · right
    intro scope
    rw [target, hresolution]
  · cases hfound : renderer.environment.helpers.find? call.name with
    | none =>
      right
      intro scope
      rw [target, hfound]
      cases call.resolution <;> rfl
    | some helper =>
      left
      refine ⟨helper, rfl, fun scope => ?_⟩
      rw [target, hfound]
      cases hcase : call.resolution with
      | property => exact absurd hcase hresolution
      | known | ambiguous | helper => rfl

namespace Renderer.Respectful

variable {renderer : Renderer φ σ}

section

variable (h : renderer.Respectful) {left right : Scope φ} (hscope : left.Alike right)

include h

theorem exists_hook (builtin : Builtin) : ∃ builtin', renderer.environment.hook builtin = .builtin builtin' := by
  rw [Environment.hook]
  cases hfound : renderer.environment.helpers.find? builtin.name with
  | none => exact ⟨builtin, rfl⟩
  | some helper => exact Helper.exists_of_isBuiltin (h.helpers _ (Table.mem_of_find? hfound))

include hscope

theorem answer {bodies : Bodies φ σ} (hbodies : bodies.Respectful) {request request' : BodyRequest φ}
    (hrequest : request.Alike request') :
    renderer.answer left bodies request = renderer.answer right bodies request' := by
  rw [Renderer.answer, Renderer.answer, ← hrequest.inverse, ← hrequest.data]
  cases hbody : bodies.find? request.inverse with
  | none => rfl
  | some body =>
    simp only [h.note, pure_bind]
    rw [hbodies _ body hbody _ _ (hscope.enter hrequest.context _)]

theorem perform {bodies : Bodies φ σ} (hbodies : bodies.Respectful) {α : Type} {action action' : Action φ α}
    (haction : action.Alike action') :
    renderer.perform left bodies action = renderer.perform right bodies action' := by
  induction haction with
  | done result => rfl
  | fail error => rfl
  | body hrequest _ ih =>
    rw [Renderer.perform, Renderer.perform, h.answer hscope hbodies hrequest]
    exact bind_congr ih

theorem call {bodies : Bodies φ σ} (hbodies : bodies.Respectful) (builtin : Builtin)
    {invocation invocation' : Invocation φ}
    (hparams : List.Forall₂ Value.Alike invocation.params invocation'.params) :
    renderer.call (.builtin builtin) invocation left bodies =
      renderer.call (.builtin builtin) invocation' right bodies := by
  rw [Renderer.call, Renderer.call, h.note, h.note, pure_bind, pure_bind]
  exact h.perform hscope hbodies (builtin.run_alike hparams)

theorem invoke {bodies : Bodies φ σ} (hbodies : bodies.Respectful) (builtin : Builtin) (call : Invocable) :
    renderer.invoke (.builtin builtin) call left bodies = renderer.invoke (.builtin builtin) call right bodies := by
  refine h.call hscope hbodies builtin ?_
  refine List.forall₂_map_left_iff.2 (List.forall₂_map_right_iff.2 (List.forall₂_same.2 fun param _ => ?_))
  exact hscope.resolve param

theorem inclusion (name : String) (context : Option Param) :
    renderer.inclusion name context left = renderer.inclusion name context right := by
  rw [Renderer.inclusion.eq_def, Renderer.inclusion.eq_def, ← hscope.data]
  cases hfound : renderer.environment.partials.find? name with
  | none => rfl
  | some found =>
    cases found with
    | source source =>
      refine bind_congr fun template => ?_
      cases context with
      | none => exact h.nested template _ _ _ hscope.current
      | some param => exact h.nested template _ _ _ (hscope.resolve param)
    | compiled template =>
      cases context with
      | none => exact h.nested template _ _ _ hscope.current
      | some param => exact h.nested template _ _ _ (hscope.resolve param)
    | function render => exact absurd rfl (h.partials _ (Table.mem_of_find? hfound) render)

variable [Callable φ]

theorem target (call : Invocable) : (renderer.target call left).Alike (renderer.target call right) := by
  rcases renderer.target_cases call with ⟨helper, hfound, htarget⟩ | htarget
  · obtain ⟨builtin, rfl⟩ := Helper.exists_of_isBuiltin (h.helpers _ (Table.mem_of_find? hfound))
    rw [htarget, htarget]
    exact .helper builtin
  · rw [htarget, htarget]
    exact .ofFound (hscope.find? call.path)

/-- A tag is written alike. What it yields may differ, since it may be a value of the context. -/
theorem expression (call : Invocable) (escape : Bool) :
    (do return (← renderer.expression call left).write escape) =
      (do return (← renderer.expression call right).write escape) := by
  have hinvoke := h.invoke hscope .none
  obtain ⟨missing, hmissing⟩ := h.exists_hook .helperMissing
  have hmissing : renderer.invoke (renderer.environment.hook .helperMissing) call left {} =
      renderer.invoke (renderer.environment.hook .helperMissing) call right {} := by
    rw [hmissing, hinvoke]
  have htarget := h.target hscope call
  rw [Renderer.expression, Renderer.expression]
  generalize renderer.target call left = target at htarget
  generalize renderer.target call right = target' at htarget
  cases htarget with
  | helper builtin => simp only [hinvoke]
  | @value found found' hfound =>
    have hvalue : (found.getD .null).write escape = (found'.getD .null).write escape :=
      Value.write_of_same (Value.Alike.getD hfound).same escape
    cases call.resolution with
    | helper => simp only [hmissing]
    | property => simp only [pure_bind, hvalue]
    | known | ambiguous =>
      cases hfound with
      | none => simp only [hmissing]
      | some _ => simp only [pure_bind, hvalue]

/-- A block yields the same, since helpers of the library only yield the texts of its bodies. -/
theorem block {bodies : Bodies φ σ} (hbodies : bodies.Respectful) (call : Invocable) :
    renderer.block call left bodies = renderer.block call right bodies := by
  have hinvoke := h.invoke hscope hbodies
  have htarget := h.target hscope call
  rw [Renderer.block, Renderer.block]
  generalize renderer.target call left = target at htarget
  generalize renderer.target call right = target' at htarget
  cases htarget with
  | helper builtin => exact hinvoke builtin call
  | @value found found' hfound =>
    by_cases hresolution : call.resolution = .helper
    · obtain ⟨missing, hmissing⟩ := h.exists_hook .helperMissing
      simp only [hresolution, if_true, hmissing, hinvoke]
    · obtain ⟨builtin, hbuiltin⟩ : ∃ builtin, (if renderer.options.knownHelpersOnly then
          .builtin .blockHelperMissing
          else renderer.environment.hook .blockHelperMissing) = Helper.builtin builtin := by
        split
        · exact ⟨_, rfl⟩
        · exact h.exists_hook .blockHelperMissing
      simp only [hresolution, if_false, hbuiltin]
      exact h.call hscope hbodies builtin (.cons (.getD hfound) .nil)

end

variable [Callable φ]

mutual

theorem op (h : renderer.Respectful) {left right : Scope φ} (hscope : left.Alike right) (op : Op) :
    renderer.op left op = renderer.op right op := by
  match op with
  | .content text => rw [Renderer.op, Renderer.op]
  | .literal literal escape => rw [Renderer.op, Renderer.op]
  | .expression call escape =>
    rw [Renderer.op, Renderer.op]
    exact h.expression hscope call escape
  | .block call program none =>
    have hprogram : Body.Respectful (renderer.ops · program) := fun _ _ hscope => ops h hscope program
    rw [Renderer.op, Renderer.op, h.block hscope (.some hprogram (by simp))]
  | .block call program (some inverse) =>
    have hprogram : Body.Respectful (renderer.ops · program) := fun _ _ hscope => ops h hscope program
    have hinverse : Body.Respectful (renderer.ops · inverse) := fun _ _ hscope => ops h hscope inverse
    rw [Renderer.op, Renderer.op, h.block hscope (.some hprogram (by simpa using hinverse))]
  | .inclusion name context =>
    rw [Renderer.op, Renderer.op]
    exact h.inclusion hscope name context

theorem ops (h : renderer.Respectful) {left right : Scope φ} (hscope : left.Alike right) (ops' : List Op) :
    renderer.ops left ops' = renderer.ops right ops' := by
  match ops' with
  | [] => rw [Renderer.ops, Renderer.ops]
  | next :: rest => rw [Renderer.ops, Renderer.ops, op h hscope next, ops h hscope rest]

end

end Renderer.Respectful

/-! ### Templates -/

section

variable [Callable φ] {host : Host φ σ} {environment : Environment φ}

theorem Template.run_of_alike (hnote : ∀ event, Run.note host event = pure ())
    (hhelpers : ∀ entry ∈ environment.helpers, entry.2.isBuiltin = true)
    (hpartials : ∀ entry ∈ environment.partials, ∀ render, entry.2 ≠ .function render) (limit : Nat)
    (template : Template) {left right : Value φ} (h : left.Alike right) (data : Option (Table (Value φ))) :
    template.run host environment limit left data = template.run host environment limit right data := by
  induction limit generalizing template left right data with
  | zero => rfl
  | succ limit ih =>
    have hrespectful : Renderer.Respectful
        ⟨host, environment, template.options, Template.run host environment limit⟩ :=
      { note := hnote
        helpers := hhelpers
        partials := hpartials
        nested := fun template left right data h => ih template h data }
    refine hrespectful.ops ?_ template.ops
    exact ⟨.cons h .nil, rfl⟩

/-- **Equal contexts render equally.** Equality is an equivalence on all values if it is one on the
handles of functions, and of the numbers only the two zeros among the doubles are equal without
being the same. With the helpers of the library only and with partials that are texts or compiled,
every template has the same outcome in two equal contexts without functions, whatever its options
are and however deeply partials may be nested. -/
theorem Template.equal_contexts_render_equally [EquivBEq φ] :
    (∀ value : Value φ, value.same value = true) ∧
    (∀ left right : Value φ, left.same right = true → right.same left = true) ∧
    (∀ left middle right : Value φ, left.same middle = true → middle.same right = true →
      left.same right = true) ∧
    (∀ left right : Number, left.same right = true ↔
      left = right ∨ ∃ sign sign', left = .double (.zero sign) ∧ right = .double (.zero sign')) ∧
    ∀ environment : Environment φ, (∀ entry ∈ environment.helpers, entry.2.isBuiltin = true) →
      (∀ entry ∈ environment.partials, ∀ render, entry.2 ≠ .function render) →
      ∀ left right : Value φ, left.same right = true → left.FunctionFree →
        ∀ template : Template, template.render left environment = template.render right environment ∧
          ∀ limit data, template.run .plain environment limit left data =
            template.run .plain environment limit right data := by
  refine ⟨Value.same_refl, fun _ _ => Value.same_symm, fun _ _ _ => Value.same_trans, fun _ _ => Number.same_iff, ?_⟩
  intro environment hhelpers hpartials left right hsame hfree template
  have hrun : ∀ limit data, template.run .plain environment limit left data =
      template.run .plain environment limit right data := fun limit =>
    Template.run_of_alike (fun _ => rfl) hhelpers hpartials limit template ⟨hsame, hfree⟩
  refine ⟨?_, hrun⟩
  rw [Template.render, Template.render, hrun]

end

/-- An object with an array of a zero with a sign and of a whole number. -/
def signedSizes (negative : Bool) : Value Empty :=
  .object [("sizes", .array [.number (.double (.zero negative)), .number (.integer 3)])]

def sizesTemplate : Template :=
  ⟨[.block ⟨"sizes", ⟨"sizes", 0, false, ["sizes"]⟩, .ambiguous, [], []⟩ [.inclusion "size" none] none], {}⟩

theorem Template.equal_contexts_render_equally_signedSizes :
    (signedSizes false).same (signedSizes true) = true ∧ signedSizes false ≠ signedSizes true ∧
    let size : SourcePartial := { text := "\x7b\x7bthis\x7d\x7d" }
    sizesTemplate.render (signedSizes false) { partials := [("size", .source size)] } =
      sizesTemplate.render (signedSizes true) { partials := [("size", .source size)] } := by
  have hsame : (signedSizes false).same (signedSizes true) = true := by decide
  have hfree : (signedSizes false).FunctionFree := by
    refine .intro rfl fun part hpart => ?_
    obtain rfl := List.mem_singleton.1 hpart
    refine .intro rfl fun part hpart => ?_
    rcases List.mem_pair.1 hpart with rfl | rfl
    all_goals exact .intro rfl nofun
  refine ⟨hsame, by simp [signedSizes, Double.zero], ?_⟩
  obtain ⟨-, -, -, -, hrender⟩ := Template.equal_contexts_render_equally (φ := Empty)
  exact (hrender _ (by decide) (by simp) _ _ hsame hfree sizesTemplate).1

end Stencil
