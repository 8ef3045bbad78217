import Stencil.Demo.Page
import Stencil.Proofs.Markup.Derivation
import Stencil.Proofs.Render.Assembled
import Stencil.Proofs.Render.Interpretation
import Stencil.Proofs.Render.Termination

/-!
# Templates that escape

If a template and its partials escape every value, if only helpers of the library are registered and
if the context holds neither safe text nor functions, then everything that is written is text of the
templates or escaped text. What the values are does not matter: none of their special characters
reaches the output.

A block writes what its helper returns as it is, but that has been put together from its bodies.
Outside a block the same helper is escaped like any value.
-/

namespace Stencil

variable {φ σ : Type}

/-! ### Interpreters -/

/-- A tag that calls a helper of the library with plain parameters, or has a plain value and is no
block. -/
inductive Meaning.Plain (isBlock : Bool) : Meaning φ → Prop where
  | call (builtin : Builtin) {params contexts : List (Value φ)} : (∀ param ∈ params, param.Plain) →
    Plain isBlock (.call (.builtin builtin) params contexts)
  | value {value : Value φ} : isBlock = false → value.Plain → Plain isBlock (.value value)

/-- An interpreter that knows only helpers of the library, and whose partials write assembled text
in plain contexts. -/
structure Interpreter.Escaping (contents : String → Prop) (interpreter : Interpreter φ σ) : Prop where
  helpers : ∀ name helper, interpreter.helpers.find? name = some helper → ∃ builtin, helper = .builtin builtin
  partials : ∀ name (context : Value φ) data, context.Plain →
    (interpreter.partials name context data).Ensures (Assembled contents)

theorem Interpreter.observe_ensures (interpreter : Interpreter φ σ) (event : Event φ) :
    (interpreter.observe event).Ensures fun _ => True :=
  fun _ _ _ _ => trivial

namespace Interpreter.Escaping

variable {contents : String → Prop} {interpreter : Interpreter φ σ}

theorem hook (h : interpreter.Escaping contents) (builtin : Builtin) :
    ∃ known, interpreter.hook builtin = .builtin known := by
  rw [Interpreter.hook]
  cases hfound : interpreter.helpers.find? builtin.name with
  | none => exact ⟨builtin, rfl⟩
  | some helper => exact h.helpers _ helper hfound

variable [Callable φ]

theorem meaning (h : interpreter.Escaping contents) {scope : Scope φ} (hscope : scope.Plain)
    (isBlock : Bool) (path : Path) (call : Call) :
    (interpreter.meaning isBlock path call scope).Plain isBlock := by
  have hparams : ∀ param ∈ call.params.map (interpreter.param scope), param.Plain := by
    intro param hmem
    obtain ⟨expr, -, rfl⟩ := List.mem_map.1 hmem
    exact hscope.param interpreter expr
  have hfound : ((scope.find? path).getD .null).Plain := .getD fun value hvalue => hscope.find? hvalue
  obtain ⟨missing, hmissing⟩ := h.hook .helperMissing
  obtain ⟨section', hsection⟩ := h.hook .blockHelperMissing
  simp only [Interpreter.meaning, hmissing, hsection]
  split
  · next helper hhelper =>
    split at hhelper
    · obtain ⟨builtin, rfl⟩ := h.helpers _ helper hhelper
      exact .call builtin hparams
    · cases hhelper
  · next handle hhandle => cases hscope.find? hhandle
  · split
    · exact .call missing hparams
    · split
      · have hfirst : ∀ param ∈ [(scope.find? path).getD .null], param.Plain := by simpa using hfound
        split
        · exact .call .blockHelperMissing hfirst
        · exact .call section' hfirst
      · split
        · exact .call missing hparams
        · next hblock _ => exact .value (by simpa using hblock) hfound

omit [Callable φ] in
/-- A helper is given plain contexts for its bodies, and what these write is assembled text. -/
theorem perform {α : Type} {kind : α → Prop} {scope : Scope φ} (hscope : scope.Plain) {bodies : Bodies φ σ}
    (hbodies : ∀ inverse body, bodies.find? inverse = some body → ∀ inner : Scope φ, inner.Plain →
      (body inner).Ensures (Assembled contents))
    {action : Action φ α} (haction : action.Keeps (Assembled contents) kind) :
    (interpreter.perform scope bodies action).Ensures kind := by
  induction haction with
  | done hresult => exact .pure hresult
  | fail error => exact .fail error
  | @body request next hrequest _ ih =>
    rw [Interpreter.perform]
    have hanswer : (interpreter.answer scope bodies request).Ensures
        fun answer => ∀ text, answer = .ok text → Assembled contents text := by
      rw [Interpreter.answer]
      cases hbody : bodies.find? request.inverse with
      | none =>
        refine .pure ?_
        rintro text ⟨⟩
        exact .empty
      | some body =>
        have hinner := hbodies _ body hbody _ (hscope.entered interpreter hrequest)
        refine (interpreter.observe_ensures _).bind fun _ _ => hinner.attempt.bind fun answer hanswer => ?_
        exact (interpreter.observe_ensures _).bind fun _ _ => .pure hanswer
    exact hanswer.bind ih

/-- A tag yields a plain value, or what a helper of the library puts together. A block only has the
latter. -/
theorem tag (h : interpreter.Escaping contents) {scope : Scope φ} (hscope : scope.Plain) (isBlock : Bool)
    (path : Path) (call : Call) {bodies : Bodies φ σ}
    (hbodies : ∀ inverse body, bodies.find? inverse = some body → ∀ inner : Scope φ, inner.Plain →
      (body inner).Ensures (Assembled contents)) :
    (interpreter.tag isBlock path call scope bodies).Ensures fun value =>
      (isBlock = false ∧ value.Plain) ∨ value.IsText (Assembled contents) := by
  have hmeaning := h.meaning hscope isBlock path call
  rw [Interpreter.tag]
  generalize interpreter.meaning isBlock path call scope = meaning at hmeaning
  cases hmeaning with
  | value hblock hvalue => exact .pure (.inl ⟨hblock, hvalue⟩)
  | call builtin hparams =>
    refine (interpreter.observe_ensures _).bind fun _ _ => ?_
    exact (perform hscope hbodies (builtin.run_keeps hparams)).weaken fun _ => .inr

theorem tag_escaped (h : interpreter.Escaping contents) {scope : Scope φ} (hscope : scope.Plain)
    (path : Path) (call : Call) :
    (do return (← interpreter.tag false path call scope {}).escaped : Run σ String).Ensures
      (Assembled contents) := by
  refine (h.tag hscope false path call ?_).map ?_
  · intro inverse body hbody
    cases inverse <;> cases hbody
  · rintro value (⟨-, hvalue⟩ | rfl | ⟨text, rfl, -⟩)
    · exact .of_plain hvalue
    · exact .empty
    · exact .escaped text

theorem block (h : interpreter.Escaping contents) {scope : Scope φ} (hscope : scope.Plain) (call : Call)
    {bodies : Bodies φ σ}
    (hbodies : ∀ inverse body, bodies.find? inverse = some body → ∀ inner : Scope φ, inner.Plain →
      (body inner).Ensures (Assembled contents)) :
    (interpreter.block call bodies scope).Ensures (Assembled contents) := by
  rw [Interpreter.block]
  split
  · exact .pure .empty
  · refine (h.tag hscope true _ call hbodies).map ?_
    rintro value (⟨hblock, -⟩ | rfl | ⟨text, rfl, htext⟩)
    · cases hblock
    · exact .empty
    · exact htext

end Interpreter.Escaping

/-! ### Nodes -/

/-- Nodes whose text is of a kind and whose values are all escaped, at any depth. -/
structure Node.AllEscaping (contents : String → Prop) (nodes : List Node) : Prop where
  content : ∀ node ∈ nodes, ∀ text, Node.Within (.content text) node → contents text
  mustache : ∀ node ∈ nodes, ∀ call, ¬Node.Within (.mustache call false) node

theorem Node.AllEscaping.of_within {contents : String → Prop} {inner outer : List Node}
    (h : Node.AllEscaping contents outer)
    (hinner : ∀ node ∈ inner, ∃ above ∈ outer, ∀ other, Node.Within other node → other.Within above) :
    Node.AllEscaping contents inner where
  content node hnode text htext := by
    obtain ⟨above, habove, hwithin⟩ := hinner node hnode
    exact h.content above habove text (hwithin _ htext)
  mustache node hnode call hcall := by
    obtain ⟨above, habove, hwithin⟩ := hinner node hnode
    exact h.mustache above habove call (hwithin _ hcall)

section Nodes

variable [Callable φ] {contents : String → Prop} {interpreter : Interpreter φ σ}

mutual

theorem Interpreter.Escaping.node (h : interpreter.Escaping contents) {scope : Scope φ} (hscope : scope.Plain)
    (node : Node) (hnode : Node.AllEscaping contents [node]) :
    (interpreter.node scope node).Ensures (Assembled contents) := by
  have hself : node ∈ [node] := List.mem_singleton_self node
  match node with
  | .content text =>
    rw [Interpreter.node]
    exact .pure (.content (hnode.content _ hself text .self))
  | .comment text =>
    rw [Interpreter.node]
    exact .pure .empty
  | .mustache call false => exact absurd .self (hnode.mustache _ hself call)
  | .mustache call true =>
    rw [Interpreter.node]
    split
    · next literal _ =>
      exact .pure (.of_plain (hscope.value (.literal literal)))
    · exact h.tag_escaped hscope _ call
  | .block call program none =>
    rw [Interpreter.node_block]
    refine h.block hscope call fun inverse body hbody inner hinner => ?_
    cases inverse with
    | true => cases hbody
    | false =>
      obtain rfl := Option.some.inj hbody
      exact Interpreter.Escaping.nodes h hinner program
        (hnode.of_within fun node hnode => ⟨_, hself, fun other => .program hnode⟩)
  | .block call program (some inverse) =>
    rw [Interpreter.node_block]
    refine h.block hscope call fun isInverse body hbody inner hinner => ?_
    cases isInverse with
    | true =>
      obtain rfl := Option.some.inj hbody
      exact Interpreter.Escaping.nodes h hinner inverse
        (hnode.of_within fun node hnode => ⟨_, hself, fun other => .inverse hnode⟩)
    | false =>
      obtain rfl := Option.some.inj hbody
      exact Interpreter.Escaping.nodes h hinner program
        (hnode.of_within fun node hnode => ⟨_, hself, fun other => .program hnode⟩)
  | .inclusion name context =>
    rw [Interpreter.node]
    refine h.partials name _ _ ?_
    cases context with
    | none => exact hscope.current
    | some expr => exact hscope.value expr

theorem Interpreter.Escaping.nodes (h : interpreter.Escaping contents) {scope : Scope φ} (hscope : scope.Plain)
    (nodes : List Node) (hnodes : Node.AllEscaping contents nodes) :
    (interpreter.nodes scope nodes).Ensures (Assembled contents) := by
  match nodes with
  | [] =>
    rw [Interpreter.nodes]
    exact .pure .empty
  | node :: rest =>
    rw [Interpreter.nodes]
    have hnode : Node.AllEscaping contents [node] :=
      hnodes.of_within fun other hother => ⟨other, List.mem_cons.2 (.inl (List.mem_singleton.1 hother)), fun _ => id⟩
    have hrest : Node.AllEscaping contents rest :=
      hnodes.of_within fun other hother => ⟨other, List.mem_cons_of_mem _ hother, fun _ => id⟩
    refine (Interpreter.Escaping.node h hscope node hnode).bind fun text htext => ?_
    exact (Interpreter.Escaping.nodes h hscope rest hrest).map fun more => htext.append

end

end Nodes

/-! ### Templates -/

/-- The nodes of a partial. A function has none. -/
def ParsedPartial.Has (included : ParsedPartial φ) (node : Node) : Prop :=
  match included with
  | .source registered => ∃ nodes, parse registered.text = .ok nodes ∧ ∃ other ∈ nodes, node.Within other
  | .template parsed => ∃ other ∈ parsed.nodes, node.Within other
  | .function _ => False

/-- The node stands in the template or in a partial, at any depth. -/
def ParsedTemplate.Uses (template : ParsedTemplate) (environment : ParsedEnvironment φ) (node : Node) : Prop :=
  (∃ other ∈ template.nodes, node.Within other) ∨
    ∃ name included, (name, included) ∈ environment.partials ∧ included.Has node

section Template

variable [Callable φ] {contents : String → Prop} {environment : ParsedEnvironment φ}

theorem ParsedTemplate.interpret_ensures (note : Event φ → σ → σ)
    (hhelpers : ∀ name helper, (name, helper) ∈ environment.helpers → ∃ builtin, helper = .builtin builtin)
    (hfunctions : ∀ name render, (name, .function render) ∉ environment.partials)
    (hpartials : ∀ name included, (name, included) ∈ environment.partials →
      (∀ text, included.Has (.content text) → contents text) ∧ ∀ call, ¬included.Has (.mustache call false))
    (limit : Nat) (template : ParsedTemplate) (htemplate : Node.AllEscaping contents template.nodes)
    (context : Value φ) (hcontext : context.Plain) (data : Option (Table (Value φ))) :
    (template.interpret note environment limit context data).Ensures (Assembled contents) := by
  induction limit generalizing template context data with
  | zero => exact .exhausted
  | succ limit ih =>
    rw [ParsedTemplate.interpret]
    refine Interpreter.Escaping.nodes ⟨?_, ?_⟩ ?_ template.nodes htemplate
    · exact fun name helper hfound => hhelpers name helper (Table.mem_of_find? hfound)
    · intro name context data hcontext
      change (environment.renderPartial _ _ _ name context data).Ensures _
      rw [ParsedEnvironment.renderPartial]
      cases hfound : environment.partials.find? name with
      | none => exact .fail _
      | some included =>
        have hmem := Table.mem_of_find? hfound
        obtain ⟨hcontents, hmustaches⟩ := hpartials name included hmem
        cases included with
        | function render => exact absurd hmem (hfunctions name render)
        | template parsed =>
          refine ih parsed ⟨?_, ?_⟩ context hcontext data
          · exact fun node hnode text htext => hcontents text ⟨node, hnode, htext⟩
          · exact fun node hnode call hcall => hmustaches call ⟨node, hnode, hcall⟩
        | source registered =>
          simp only
          cases hparse : parse registered.text with
          | error error => exact .fail _
          | ok nodes =>
            refine ih ⟨nodes, _⟩ ⟨?_, ?_⟩ context hcontext data
            · exact fun node hnode text htext => hcontents text ⟨nodes, hparse, node, hnode, htext⟩
            · exact fun node hnode call hcall => hmustaches call ⟨nodes, hparse, node, hnode, hcall⟩
    · intro found hfound
      rw [List.mem_singleton.1 hfound]
      exact hcontext

/-- **Escaped templates cannot be injected into.** Take a template that escapes every value, like
all of its partials, none of which is a function; only helpers of the library; and a context without
safe text and functions. What is rendered consists of pieces, each of them text of the templates or
escaped text. So if the text of the templates has no special character, then no special character
but an ampersand is in the output, and each ampersand begins an entity. -/
theorem render_escaping {template : ParsedTemplate} {context : Value φ} {output : String}
    (hmustaches : ∀ call, ¬template.Uses environment (.mustache call false))
    (hhelpers : ∀ name helper, (name, helper) ∈ environment.helpers → ∃ builtin, helper = .builtin builtin)
    (hfunctions : ∀ name render, (name, .function render) ∉ environment.partials)
    (hcontext : context.Plain)
    (hrender : template.compile.Yields context environment.compile (.done output)) :
    (∃ pieces : List String, output.toList = pieces.flatMap String.toList ∧
      ∀ piece ∈ pieces,
        template.Uses environment (.content piece) ∨ ∃ text, piece = Html.escape text) ∧
    ((∀ text, template.Uses environment (.content text) →
        ∀ char ∈ text.toList, Html.entity? char = none) →
      (∀ char ∈ output.toList, Html.entity? char ≠ none → char = '&') ∧
      ∀ before after, output.toList = before ++ '&' :: after →
        ∃ special entity, Html.entity? special = some entity ∧ entity <+: '&' :: after) := by
  obtain ⟨-, limit, hrun⟩ := hrender
  have htemplate : Node.AllEscaping (fun text => template.Uses environment (.content text)) template.nodes :=
    ⟨fun node hnode text htext => .inl ⟨node, hnode, htext⟩,
      fun node hnode call hcall => hmustaches call (.inl ⟨node, hnode, hcall⟩)⟩
  have hensures := ParsedTemplate.interpret_ensures (fun _ (state : Unit) => state) hhelpers hfunctions
    (fun name included hmem => ⟨fun text htext => .inr ⟨name, included, hmem, htext⟩,
      fun call hcall => hmustaches call (.inr ⟨name, included, hmem, hcall⟩)⟩)
    limit template htemplate context hcontext environment.data
  have hassembled : Assembled (fun text => template.Uses environment (.content text)) output := by
    rw [← run_compile] at hensures
    exact hensures () output _ (Prod.ext hrun rfl)
  refine ⟨hassembled, fun hcontents => ?_⟩
  have hinert := hassembled.inert hcontents
  exact ⟨hinert.eq_ampersand, fun before after => hinert.entity_of_ampersand⟩

/-- Values with all special characters, in a block and in a partial. -/
theorem render_escaping_quotes :
    let name (text : String) : Call := ⟨.path ⟨text, 0, false, [text]⟩, [], [], ⟨0, 0⟩⟩
    let template : ParsedTemplate :=
      ⟨[.block (name "a") [.mustache (name "b") true, .content ", ", .inclusion "c" none] none], {}⟩
    let environment : ParsedEnvironment Empty :=
      { helpers := [("with", .builtin .withHelper)]
        partials := [("c", .template ⟨[.mustache (name "c") true], {}⟩)] }
    let context : Value Empty := .object [("a", .array [.object [("b", .string "<&>"), ("c", .string "'")]])]
    template.compile.Yields context environment.compile (.done "&lt;&amp;&gt;, &#x27;") ∧
      ∀ before after, "&lt;&amp;&gt;, &#x27;".toList = before ++ '&' :: after →
        ∃ special entity, Html.entity? special = some entity ∧ entity <+: '&' :: after := by
  intro name template environment context
  have huses : ∀ node, template.Uses environment node →
      (∃ call, node = .mustache call true) ∨ (∃ call program, node = .block call program none) ∨
        node = .content ", " ∨ node = .inclusion "c" none := by
    rintro node (⟨other, hother, hwithin⟩ | ⟨_, included, hincluded, hwithin⟩)
    · obtain rfl := List.mem_singleton.1 hother
      cases hwithin with
      | self => exact .inr (.inl ⟨_, _, rfl⟩)
      | program hinner hwithin =>
        simp only [List.mem_cons, List.not_mem_nil, or_false] at hinner
        rcases hinner with rfl | rfl | rfl <;> cases hwithin <;> simp
    · obtain ⟨-, rfl⟩ := Prod.mk.inj (List.mem_singleton.1 hincluded)
      obtain ⟨other, hother, hwithin⟩ := hwithin
      obtain rfl := List.mem_singleton.1 hother
      cases hwithin
      exact .inl ⟨_, rfl⟩
  have hyields : template.compile.Yields context environment.compile (.done "&lt;&amp;&gt;, &#x27;") :=
    ⟨by decide, 2, by decide +kernel⟩
  have hcontext : context.Plain := by
    refine .object fun member hmember => ?_
    rw [List.mem_singleton.1 hmember]
    refine .array fun item hitem => ?_
    rw [List.mem_singleton.1 hitem]
    refine .object fun inner hinner => ?_
    simp only [List.mem_cons, List.not_mem_nil, or_false] at hinner
    rcases hinner with rfl | rfl
    · exact .string _
    · exact .string _
  refine ⟨hyields, ((render_escaping ?_ ?_ ?_ hcontext hyields).2 ?_).2⟩
  · intro call hcall
    simpa using huses _ hcall
  · intro _ helper hhelper
    exact ⟨.withHelper, (Prod.mk.inj (List.mem_singleton.1 hhelper)).2⟩
  · intro _ render hrender
    cases (Prod.mk.inj (List.mem_singleton.1 hrender)).2
  · intro text htext
    obtain rfl : text = ", " := by simpa using huses _ htext
    change ∀ char ∈ [',', ' '], Html.entity? char = none
    simp only [List.forall_mem_cons, List.not_mem_nil, false_implies, implies_true, and_true]
    decide

end Template

end Stencil
