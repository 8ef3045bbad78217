import Stencil.Demo.Page
import Stencil.Proofs.Markup.Heads
import Stencil.Proofs.Render.Agreement

/-!
# Parameters that are passed as their text

A template may pass the text of a path to a helper, and not its value. The helper is then told where
the path would have been looked up. From there the text leads to the value: the path has no empty
segments and no dots in them, so its text falls into its segments again.
-/

namespace Stencil

variable {φ σ : Type}

/-! ### The text of a path -/

/-- What a text leads to from a value: the value itself if the text is empty, or else what its
pieces between dots lead to. -/
def Value.follow (text : String) (value : Value φ) : Option (Value φ) :=
  if text = "" then some value
  else Value.descend? ((text.toList.splitOn '.').map String.ofList) value

theorem Value.descend?_null (names : List String) : (Value.descend? names (.null : Value φ)).getD .null = .null := by
  cases names with
  | nil => rfl
  | cons name names => rfl

namespace Path

theorem segment_of_ofText {text : List Char} {path : Path} (h : ofText? text = some path) :
    ∀ segment ∈ path.segments, segment ≠ "" ∧ '.' ∉ segment.toList := by
  simp only [ofText?, Option.ite_none_left_eq_some, Option.some.injEq] at h
  obtain ⟨hnames, -, rfl⟩ := h
  intro segment hsegment
  obtain ⟨piece, hpiece, rfl⟩ := List.mem_map.1 hsegment
  constructor
  · intro hempty
    obtain rfl : piece = [] := by simpa using hempty
    exact hnames (.inl hpiece)
  · intro hdot
    rw [String.toList_ofList] at hdot
    split at hpiece
    · simp at hpiece
    · exact absurd (not_separates_of_mem_pieces hpiece '.' hdot) (by decide)

/-- The text of a path leads where its segments do. -/
theorem follow_dotted {text : List Char} {path : Path} (h : ofText? text = some path) (value : Value φ) :
    value.follow path.dotted = Value.descend? path.segments value := by
  have hsegments := segment_of_ofText h
  rw [dotted]
  generalize path.segments = segments at hsegments
  cases segments with
  | nil => rfl
  | cons segment segments =>
    let names : List (List Char) := (segment :: segments).map String.toList
    have hsplit : (String.intercalate "." (segment :: segments)).toList.splitOn '.' = names := by
      rw [String.toList_intercalate]
      refine List.splitOn_intercalate '.' ?_ (by simp)
      intro name hname
      obtain ⟨found, hfound, rfl⟩ := List.mem_map.1 hname
      exact (hsegments found hfound).2
    have hnames : names.map String.ofList = segment :: segments := by
      simp [names, Function.comp_def]
    have hne : String.intercalate "." (segment :: segments) ≠ "" := by
      intro hempty
      rw [hempty] at hsplit
      obtain rfl : segment = "" := by simpa [names] using (List.cons.inj hsplit).1
      exact (hsegments "" List.mem_cons_self).1 rfl
    rw [Value.follow, if_neg hne, hsplit, hnames]

end Path

/-! ### What a helper is told -/

/-- The tag that a node is compiled to, if it is one that names something. -/
def Node.tag? (options : CompileOptions) (node : Node) : Option Invocable :=
  match node.compile options with
  | some (.expression tag _) => some tag
  | some (.block tag _ _) => some tag
  | _ => none

theorem Node.exists_of_tag {options : CompileOptions} {node : Node} {tag : Invocable}
    (h : node.tag? options = some tag) :
    ∃ call path, node.call? = some call ∧ tag = options.invocable path call ∧
      ∀ other : CompileOptions, node.tag? other = some (other.invocable path call) := by
  match node with
  | .content text | .comment text | .inclusion name context => simp [tag?, Node.compile] at h
  | .mustache call escaped =>
    cases hhead : call.head with
    | literal literal => simp [tag?, Node.compile, hhead] at h
    | path path =>
      simp only [tag?, Node.compile, hhead, Option.some.injEq] at h ⊢
      exact ⟨call, path, rfl, h.symm, fun other => rfl⟩
  | .block call program none | .block call program (some inverse) =>
    cases hhead : call.head with
    | literal literal => simp [tag?, Node.compile, hhead] at h
    | path path =>
      simp only [tag?, Node.compile, hhead, Option.some.injEq] at h ⊢
      exact ⟨call, path, rfl, h.symm, fun other => rfl⟩

/-- Two accounts of a tag, one with the texts of the paths among its parameters and one with their
values. They only differ in the parameters and their contexts, and each text leads from its context
to the value. -/
structure Invocation.Defers (texts values : Invocation φ) (current : Value φ) (exprs : List Expr) : Prop where
  params : texts.params.length = exprs.length
  contexts : texts.contexts.length = exprs.length
  paths : ∀ (index : Nat) (path : Path), exprs[index]? = some (.path path) →
    ∃ context, texts.params[index]? = some (.string path.dotted) ∧ texts.contexts[index]? = some context ∧
      values.params[index]? = some ((context.follow path.dotted).getD .null)
  literals : ∀ (index : Nat) (literal : Literal), exprs[index]? = some (.literal literal) →
    texts.params[index]? = some literal.value ∧ texts.contexts[index]? = some current ∧
      values.params[index]? = some literal.value
  others : { texts with params := values.params, contexts := values.contexts } = values

namespace Renderer

variable (renderer : Renderer φ σ)

/-- The renderer that passes parameters as their values. -/
def valued : Renderer φ σ :=
  { renderer with options := { renderer.options with stringParams := false } }

/-- What a helper is told about a tag if it gets the parameters of the tag. -/
def told (call : Invocable) (scope : Scope φ) (bodies : Bodies φ σ) : Invocation φ :=
  invocation call scope bodies (call.params.map scope.resolve)
    (if renderer.options.stringParams then call.params.map scope.contextOf else [])

def tag [Callable φ] (bodies : Option (Bodies φ σ)) (call : Invocable) (scope : Scope φ) : Run σ (Value φ) :=
  match bodies with
  | none => renderer.expression call scope
  | some bodies => renderer.block call scope bodies

/-- The helper that a tag calls with its parameters, if it calls one with them: a helper that is
registered, a function, or the one for names without helper. -/
def ownHelper? [Callable φ] (isBlock : Bool) (call : Invocable) (scope : Scope φ) : Option (Helper φ) :=
  match renderer.target call scope with
  | .helper helper => some helper
  | .value found =>
    if call.resolution = .helper ∨ (isBlock = false ∧ call.resolution ≠ .property ∧ found.isNone) then
      some (renderer.environment.hook .helperMissing)
    else none

theorem tag_eq_call [Callable φ] {bodies : Option (Bodies φ σ)} {call : Invocable} {scope : Scope φ}
    {helper : Helper φ} (h : renderer.ownHelper? bodies.isSome call scope = some helper) :
    renderer.tag bodies call scope =
      renderer.call helper (renderer.told call scope (bodies.getD {})) scope (bodies.getD {}) := by
  rw [ownHelper?] at h
  cases bodies with
  | none =>
    rw [tag, expression]
    cases htarget : renderer.target call scope with
    | helper found =>
      obtain rfl : found = helper := by simpa [htarget] using h
      rfl
    | value found =>
      rw [htarget] at h
      cases hresolution : call.resolution <;> cases found <;> simp_all [invoke, told]
  | some bodies =>
    rw [tag, block]
    cases htarget : renderer.target call scope with
    | helper found =>
      obtain rfl : found = helper := by simpa [htarget] using h
      rfl
    | value found =>
      rw [htarget] at h
      cases hresolution : call.resolution <;> simp_all [invoke, told]

/-- A tag that calls no helper with its parameters has a value, or is a section of one. -/
theorem tag_eq_of_none [Callable φ] {bodies : Option (Bodies φ σ)} {call : Invocable} {scope : Scope φ}
    (h : renderer.ownHelper? bodies.isSome call scope = none) :
    renderer.tag bodies call scope =
      match bodies with
      | none => pure ((scope.find? call.path).getD .null)
      | some bodies =>
        let helper := if renderer.options.knownHelpersOnly then .builtin .blockHelperMissing
          else renderer.environment.hook .blockHelperMissing
        renderer.call helper
          (invocation call scope bodies [(scope.find? call.path).getD .null] []) scope bodies := by
  have hvalue : ∀ found, renderer.target call scope = .value found → found = scope.find? call.path := by
    intro found htarget
    rw [target] at htarget
    split at htarget
    · cases htarget
    · rw [Target.ofFound.eq_def] at htarget
      split at htarget
      · cases htarget
      · exact (Target.value.inj htarget).symm
  rw [ownHelper?] at h
  cases htarget : renderer.target call scope with
  | helper found => simp [htarget] at h
  | value found =>
    rw [htarget] at h
    rw [← hvalue found htarget]
    cases bodies with
    | none =>
      rw [tag, expression, htarget]
      cases hresolution : call.resolution <;> cases found <;> simp_all
    | some bodies =>
      rw [tag, block, htarget]
      cases hresolution : call.resolution <;> simp_all

/-- The same helper is called whether parameters are passed as texts or as values. -/
theorem valued_ownHelper? [Callable φ] (isBlock : Bool) (path : Path) (call : Call) (scope : Scope φ) :
    renderer.valued.ownHelper? isBlock (renderer.valued.options.invocable path call) scope =
      renderer.ownHelper? isBlock (renderer.options.invocable path call) scope :=
  rfl

/-- The value of a path is what its text leads to from where the path would be looked up. -/
theorem follow_paramContext {text : List Char} {path : Path} (h : Path.ofText? text = some path)
    (scope : Scope φ) :
    Interpreter.value scope (.path path) =
      ((Interpreter.paramContext scope (.path path)).follow path.dotted).getD .null := by
  rw [Path.follow_dotted h, Interpreter.value, Interpreter.paramContext, Scope.find?]
  cases scope.frame? path.depth with
  | none => exact (Value.descend?_null path.segments).symm
  | some context => rfl

theorem told_defers (hstrings : renderer.options.stringParams = true) (path : Path) {call : Call}
    (hcall : ∀ found, .path found ∈ call.params → ∃ text, Path.ofText? text = some found)
    (scope : Scope φ) (bodies : Bodies φ σ) :
    (renderer.told (renderer.options.invocable path call) scope bodies).Defers
      (renderer.valued.told (renderer.valued.options.invocable path call) scope bodies) scope.current call.params := by
  have hparams : (renderer.told (renderer.options.invocable path call) scope bodies).params =
      call.params.map (renderer.interpreter.param scope) := renderer.map_resolve_params scope path call
  have hcontexts : (renderer.told (renderer.options.invocable path call) scope bodies).contexts =
      call.params.map (Interpreter.paramContext scope) := by
    have hmap := renderer.map_contextOf_params scope path call
    rw [if_pos hstrings, if_pos hstrings] at hmap
    rw [told, if_pos hstrings]
    exact hmap
  have hvalues : (renderer.valued.told (renderer.valued.options.invocable path call) scope bodies).params =
      call.params.map (Interpreter.value scope) := by
    refine (renderer.valued.map_resolve_params scope path call).trans (List.map_congr_left fun expr _ => ?_)
    cases expr <;> rfl
  refine ⟨by rw [hparams, List.length_map], by rw [hcontexts, List.length_map], ?_, ?_, rfl⟩
  · intro index found hfound
    obtain ⟨text, htext⟩ := hcall found (List.mem_of_getElem? hfound)
    refine ⟨Interpreter.paramContext scope (.path found), ?_, ?_, ?_⟩
    · rw [hparams, List.getElem?_map, hfound]
      simp [Interpreter.param, interpreter, hstrings]
    · rw [hcontexts, List.getElem?_map, hfound]
      rfl
    · rw [hvalues, List.getElem?_map, hfound, ← follow_paramContext htext]
      rfl
  · intro index literal hliteral
    refine ⟨?_, ?_, ?_⟩
    · rw [hparams, List.getElem?_map, hliteral]
      rfl
    · rw [hcontexts, List.getElem?_map, hliteral]
      rfl
    · rw [hvalues, List.getElem?_map, hliteral]
      rfl

/-- **Parameters that are passed as text lose nothing.** Take a tag of a parsed template, inline or
a block, that calls a helper with its parameters in some scope, in a template that passes parameters
as their texts. Compiled to pass them as their values, the tag calls the same helper. For each
parameter that is a path, the helper is told a text and a context such that the text leads from the
context to the value, or to nothing if the value is null. A literal is passed as its value either
way, with the current context. -/
theorem defers_params [Callable φ] {source : String} {nodes : List Node} (hparse : parse source = .ok nodes)
    {node : Node} (hnode : node.Among nodes) (hstrings : renderer.options.stringParams = true) {tag : Invocable}
    (htag : node.tag? renderer.options = some tag) {bodies : Option (Bodies φ σ)} {scope : Scope φ}
    {helper : Helper φ} (hhelper : renderer.ownHelper? bodies.isSome tag scope = some helper) :
    ∃ call valuedTag,
      node.call? = some call ∧ node.tag? renderer.valued.options = some valuedTag ∧
        renderer.tag bodies tag scope =
          renderer.call helper (renderer.told tag scope (bodies.getD {})) scope (bodies.getD {}) ∧
        renderer.valued.tag bodies valuedTag scope =
          renderer.valued.call helper (renderer.valued.told valuedTag scope (bodies.getD {})) scope (bodies.getD {}) ∧
        (renderer.told tag scope (bodies.getD {})).Defers (renderer.valued.told valuedTag scope (bodies.getD {}))
          scope.current call.params := by
  obtain ⟨call, path, hcall, rfl, hother⟩ := Node.exists_of_tag htag
  obtain ⟨_, _, hbody⟩ := exists_ofBody_of_parse hparse hnode hcall
  have hparams : ∀ found, .path found ∈ call.params → ∃ text, Path.ofText? text = some found :=
    fun found hfound => Call.exists_text_of_mem_params hbody hfound
  have hvalued := renderer.valued_ownHelper? bodies.isSome path call scope
  exact ⟨call, _, hcall, hother renderer.valued.options, renderer.tag_eq_call hhelper,
    renderer.valued.tag_eq_call (hvalued.trans hhelper), renderer.told_defers hstrings path hparams scope _⟩

/-- An item of an array above, the current context and a string. -/
theorem defers_params_parent :
    let renderer : Renderer Empty Unit :=
      { host := .plain
        environment := { helpers := [("h", .custom fun _ => pure .null)] }
        options := { stringParams := true }
        nested := fun _ _ _ => pure "" }
    let scope : Scope Empty := { current := .null, outer := [.object [("a", .array [.boolean true])]] }
    let exprs : List Expr :=
      [.path ⟨"../a/0", 1, false, ["a", "0"]⟩, .path ⟨".", 0, true, []⟩, .literal (.string "x")]
    let node : Node := .mustache ⟨.path ⟨"h", 0, false, ["h"]⟩, exprs, [], ⟨2, 16⟩⟩ true
    parse "\x7b\x7bh ../a/0 . \"x\"\x7d\x7d" = .ok [node] ∧
      ∃ tag valuedTag, node.tag? renderer.options = some tag ∧
        node.tag? renderer.valued.options = some valuedTag ∧ (renderer.ownHelper? false tag scope).isSome ∧
        (renderer.told tag scope {}).Defers (renderer.valued.told valuedTag scope {}) .null exprs := by
  intro renderer scope exprs node
  have hparse : parse "\x7b\x7bh ../a/0 . \"x\"\x7d\x7d" = .ok [node] := rfl
  let bodies : Option (Bodies Empty Unit) := none
  let tag := renderer.options.invocable ⟨"h", 0, false, ["h"]⟩ ⟨.path ⟨"h", 0, false, ["h"]⟩, exprs, [], ⟨2, 16⟩⟩
  have htag : node.tag? renderer.options = some tag := rfl
  obtain ⟨helper, hhelper⟩ : ∃ helper, renderer.ownHelper? bodies.isSome tag scope = some helper := ⟨_, rfl⟩
  obtain ⟨call, valuedTag, hcall, hvalued, -, -, hdefers⟩ :=
    renderer.defers_params hparse (Node.Among.cons_self node []) rfl htag hhelper
  obtain rfl := Option.some.inj hcall
  exact ⟨hparse, tag, valuedTag, htag, hvalued, Option.isSome_of_eq_some hhelper, hdefers⟩

end Renderer

end Stencil
