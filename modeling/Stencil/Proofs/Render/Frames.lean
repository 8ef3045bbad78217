import Stencil.Demo.Page
import Stencil.Proofs.Render.Refilling
import Stencil.Proofs.Value.Equality

/-!
# The contexts that blocks push

Each block whose body is rendered puts one context in front of those around it, whatever its helper
is. The conditions of the library repeat the context around them, and so does every inverse body. A
section and `with` put their value there, and a list puts its items one after another. So the
contexts at a tag are those of the blocks around it, from the root on, and a path takes one step to
the parents for each block that it leaves.
-/

namespace Stencil

variable {φ : Type}

/-! ### What the helpers of the library ask for -/

namespace Builtin

/-- The contexts with which the main body of a block is rendered, one after another, for the value
of the block and the context around it. -/
def programContexts (builtin : Builtin) (value current : Value φ) : List (Value φ) :=
  match builtin with
  | .ifHelper => if value.isTruthy then [current] else []
  | .unlessHelper => if value.isTruthy then [] else [current]
  | .eachHelper => value.parts
  | .withHelper => if value.isNull then [] else [value]
  | .helperMissing => []
  | .blockHelperMissing =>
    match value with
    | .array items => items
    | _ => if value.isTruthy then [value] else []

/-- The contexts of one of the bodies. The inverse body repeats the context around the block if the
main body is not rendered. -/
def bodyContexts (builtin : Builtin) (value current : Value φ) (inverse : Bool) : List (Value φ) :=
  let contexts := builtin.programContexts value current
  if inverse then if contexts.isEmpty then [current] else [] else contexts

variable {allowed : BodyRequest φ → Prop}

theorem choice_asksOnly {condition : Bool} {first second : BodyRequest φ} (hfirst : condition = true → allowed first)
    (hsecond : condition = false → allowed second) :
    (if condition then Action.render first else Action.render second).AsksOnly allowed := by
  cases condition with
  | true => exact .render (hfirst rfl)
  | false => exact .render (hsecond rfl)

theorem renderEach_asksOnly {items : List (Value φ)}
    (h : ∀ item ∈ items, allowed { inverse := false, context := some item }) :
    (renderEach items).AsksOnly allowed := by
  induction items with
  | nil => exact .done ""
  | cons item items ih =>
    rw [List.forall_mem_cons] at h
    exact (Action.AsksOnly.render h.1).bind fun text => (ih h.2).map (text ++ ·)

theorem renderItems_asksOnly {items : List (Value φ)}
    (hitems : ∀ item ∈ items, allowed { inverse := false, context := some item })
    (hnone : items = [] → allowed { inverse := true }) : (renderItems items).AsksOnly allowed := by
  cases items with
  | nil => exact .render (hnone rfl)
  | cons item items => exact renderEach_asksOnly hitems

/-- A helper of the library asks for its bodies with the contexts that it puts in front, and with no
others. -/
theorem run_asksOnly (builtin : Builtin) (invocation : Invocation φ) (current : Value φ) :
    (builtin.run invocation).AsksOnly fun request =>
      request.context.getD current ∈
        builtin.bodyContexts (invocation.params.headD .null) current request.inverse := by
  generalize hvalue : invocation.params.headD .null = value
  cases builtin with
  | helperMissing => exact .done _
  | ifHelper | unlessHelper | withHelper =>
    rw [run, hvalue]
    refine Action.AsksOnly.map (choice_asksOnly ?_ ?_) _
    · exact fun h => by simp [bodyContexts, programContexts, h]
    · exact fun h => by simp [bodyContexts, programContexts, h]
  | eachHelper =>
    have hitems : ∀ items, value.parts = items → (renderItems items).AsksOnly fun request : BodyRequest φ =>
        request.context.getD current ∈ eachHelper.bodyContexts value current request.inverse := by
      rintro _ rfl
      refine renderItems_asksOnly ?_ ?_
      · exact fun item hitem => by simpa [bodyContexts, programContexts] using hitem
      · exact fun hnone => by simp [bodyContexts, programContexts, hnone]
    rw [run, hvalue]
    refine Action.AsksOnly.map ?_ _
    split
    · exact hitems _ rfl
    · exact hitems _ rfl
    · refine hitems [] ?_
      rw [Value.parts.eq_def]
      split <;> simp_all
  | blockHelperMissing =>
    rw [run, hvalue]
    refine Action.AsksOnly.map ?_ _
    rw [renderSection.eq_def]
    split
    · refine renderItems_asksOnly ?_ ?_
      · exact fun item hitem => by simpa [bodyContexts, programContexts] using hitem
      · exact fun hnone => by simp [bodyContexts, programContexts, hnone]
    · refine choice_asksOnly ?_ ?_
      · exact fun h => by simp [bodyContexts, programContexts, h]
      · exact fun h => by simp [bodyContexts, programContexts, h]

end Builtin

/-! ### Frames -/

/-- The blocks around a gap, from the outermost one on, each with its call and whether the gap
stands in its inverse body. -/
def Gap.blocks : Gap → List (Call × Bool)
  | here _ _ => []
  | inProgram _ call inner _ _ => (call, false) :: inner.blocks
  | inInverse _ call _ inner _ => (call, true) :: inner.blocks

namespace Interpreter

variable {σ : Type} (interpreter : Interpreter φ σ)

/-- A block does in a scope what a helper of the library does with a value. Either its name calls
the helper, which gets the first parameter, or it is a section for the value that its head leads
to. -/
inductive Opens (scope : Scope φ) (call : Call) : Builtin → Value φ → Prop where
  | helper {path : Path} {builtin : Builtin} : call.head = .path path → interpreter.consults path = true →
    interpreter.helpers.find? path.text = some (.builtin builtin) →
    Opens scope call builtin ((call.params.map (interpreter.param scope)).headD .null)
  | property {path : Path} : call.head = .path path →
    (interpreter.consults path = true →
      interpreter.helpers.find? path.text = none ∧ call.hasArguments = false) →
    ((scope.find? path).getD .null).isFunction = false →
    (interpreter.options.knownHelpersOnly = true ∨
      interpreter.hook .blockHelperMissing = .builtin .blockHelperMissing) →
    Opens scope call .blockHelperMissing ((scope.find? path).getD .null)

/-- A scope is one in which a body of a block may be rendered: there is one context in front of
those around the block, and if the block is one of the library, its value says which. -/
structure Enters (scope : Scope φ) (call : Call) (inverse : Bool) (inner : Scope φ) : Prop where
  outer : inner.outer = scope.current :: scope.outer
  current : ∀ builtin value, interpreter.Opens scope call builtin value →
    inner.current ∈ builtin.bodyContexts value scope.current inverse

/-- From a scope through the bodies of some blocks to another scope, with the contexts that the
blocks put in front. -/
inductive Descends : Scope φ → List (Call × Bool) → List (Value φ) → Scope φ → Prop where
  | here (scope : Scope φ) : Descends scope [] [] scope
  | enter {scope inner innermost : Scope φ} {call : Call} {inverse : Bool} {blocks : List (Call × Bool)}
    {contexts : List (Value φ)} : interpreter.Enters scope call inverse inner →
    Descends inner blocks contexts innermost →
    Descends scope ((call, inverse) :: blocks) (inner.current :: contexts) innermost

variable {interpreter}

theorem Opens.meaning [Callable φ] {scope : Scope φ} {call : Call} {builtin : Builtin} {value : Value φ}
    (h : interpreter.Opens scope call builtin value) :
    ∃ path params contexts, call.head = .path path ∧
      interpreter.meaning true path call scope = .call (.builtin builtin) params contexts ∧
      params.headD .null = value := by
  cases h with
  | @helper path _ hhead hconsults hfind =>
    exact ⟨path, _, _, hhead, by simp only [Interpreter.meaning, hconsults, hfind]; rfl, rfl⟩
  | @property path hhead hnone hfunction hhook =>
    refine ⟨path, [(scope.find? path).getD .null], [], hhead, ?_, rfl⟩
    have hfind : (if interpreter.consults path = true then interpreter.helpers.find? path.text else none) = none := by
      split
      · next hconsults => exact (hnone hconsults).1
      · rfl
    have harguments : (interpreter.consults path && call.hasArguments) = false := by
      cases hconsults : interpreter.consults path with
      | false => rfl
      | true => exact (hnone hconsults).2
    have hmissing : (if interpreter.options.knownHelpersOnly = true then .builtin .blockHelperMissing
        else interpreter.hook .blockHelperMissing) = .builtin .blockHelperMissing := by
      split
      · rfl
      · next honly => exact hhook.resolve_left honly
    simp only [Interpreter.meaning, hfind, harguments, hmissing]
    cases hfound : scope.find? path with
    | none => simp
    | some found =>
      rw [hfound] at hfunction
      cases found with
      | function handle => simp [Value.isFunction] at hfunction
      | _ => simp

namespace Descends

variable {scope innermost : Scope φ} {blocks : List (Call × Bool)} {contexts : List (Value φ)}
  (h : interpreter.Descends scope blocks contexts innermost)

include h

theorem length_eq : contexts.length = blocks.length := by
  induction h with
  | here scope => rfl
  | enter _ _ ih => rw [List.length_cons, List.length_cons, ih]

/-- The contexts of the innermost scope are those of the blocks, from the inside out, and then those
around. -/
theorem frames_eq :
    innermost.current :: innermost.outer = contexts.reverse ++ scope.current :: scope.outer := by
  induction h with
  | here scope => rfl
  | enter henters _ ih => rw [ih, henters.outer, List.reverse_cons, List.append_assoc]; rfl

/-- A path counts its steps to the parents from the innermost context to the root. -/
theorem find?_eq (hroot : scope.outer = []) (path : Path) :
    innermost.find? path =
      if path.depth ≤ blocks.length then
        ((scope.current :: contexts)[blocks.length - path.depth]?).bind (Value.descend? path.segments)
      else none := by
  have hframes : innermost.current :: innermost.outer = (scope.current :: contexts).reverse := by
    rw [h.frames_eq, hroot, List.reverse_cons]
  have hlength : (scope.current :: contexts).length = blocks.length + 1 := by
    rw [List.length_cons, h.length_eq]
  rw [Scope.find?, Scope.frame?, hframes]
  split
  · next hdepth =>
    have hindex : (scope.current :: contexts).length - 1 - path.depth = blocks.length - path.depth := by omega
    rw [List.getElem?_reverse (by omega), hindex]
  · next hdepth =>
    rw [List.getElem?_eq_none (by rw [List.length_reverse]; omega)]
    rfl

end Descends

end Interpreter

/-! ### Visits -/

/-- The scopes that a run adds to the list are of some kind. The other run does not matter. -/
def Run.visiting (holds : Scope φ → Prop) : Run.Congruence (List (Scope φ)) (List (Scope φ)) where
  Related run _ := ∀ visits, ∀ scope ∈ (run visits).2, scope ∈ visits ∨ holds scope
  pure_related _ := fun _ _ hscope => .inl hscope
  fail_related _ := fun _ _ hscope => .inl hscope
  bind_related := by
    intro α β run _ next _ hrun hnext visits scope hscope
    have hfirst := hrun visits
    rw [Run.bind_apply] at hscope
    rcases heq : run visits with ⟨result | error | _, between⟩
    · rw [heq] at hscope hfirst
      rcases hnext result between scope hscope with hbetween | hholds
      · exact hfirst scope hbetween
      · exact .inr hholds
    · rw [heq] at hscope hfirst
      exact hfirst scope hscope
    · rw [heq] at hscope hfirst
      exact hfirst scope hscope
  attempt_related := by
    intro α run _ hrun visits scope hscope
    have hfirst := hrun visits
    rw [Run.attempt] at hscope
    rcases heq : run visits with ⟨_ | _ | _, after⟩
    all_goals
      rw [heq] at hscope hfirst
      exact hfirst scope hscope

theorem Run.visiting_mono {holds other : Scope φ → Prop} (hmono : ∀ scope, holds scope → other scope) {α : Type}
    {run run' : Run (List (Scope φ)) α} (h : (Run.visiting holds).Related run run') :
    (Run.visiting other).Related run run' :=
  fun visits scope hscope => (h visits scope hscope).imp_right (hmono scope)

theorem Run.visiting_visit {holds : Scope φ → Prop} {scope : Scope φ} (h : holds scope) :
    (Run.visiting holds).Related (Run.visit scope) (Run.visit scope) := by
  intro visits other hother
  rcases List.mem_append.1 hother with hother | hother
  · exact .inl hother
  · rw [List.mem_singleton.1 hother]
    exact .inr h

section

variable [Callable φ] {interpreter : Interpreter φ (List (Scope φ))}

theorem Interpreter.asksOnly_entered {scope : Scope φ} {call : Call} {path : Path} (hhead : call.head = .path path)
    {helper : Helper φ} {params contexts : List (Value φ)}
    (hmeaning : interpreter.meaning true path call scope = .call helper params contexts)
    {invocation : Invocation φ} (hparams : invocation.params = params) :
    (helper.run invocation).AsksOnly fun request =>
      interpreter.Enters scope call request.inverse (interpreter.entered scope request) := by
  have hmeans : ∀ builtin value, interpreter.Opens scope call builtin value →
      helper = .builtin builtin ∧ invocation.params.headD .null = value := by
    intro builtin value hopens
    obtain ⟨path', params', _, hhead', hmeaning', hvalue⟩ := hopens.meaning
    obtain rfl : path = path' := Expr.path.inj (hhead.symm.trans hhead')
    obtain ⟨rfl, rfl, -⟩ := Meaning.call.inj (hmeaning.symm.trans hmeaning')
    exact ⟨rfl, by rw [hparams, hvalue]⟩
  by_cases hopens : ∃ builtin value, interpreter.Opens scope call builtin value
  · obtain ⟨builtin, value, hopens⟩ := hopens
    obtain ⟨rfl, hvalue⟩ := hmeans builtin value hopens
    refine (builtin.run_asksOnly invocation scope.current).mono fun request hrequest => ⟨rfl, ?_⟩
    intro other found hother
    obtain ⟨hsame, rfl⟩ := hmeans other found hother
    obtain rfl := Helper.builtin.inj hsame
    exact hrequest
  · refine .of_forall (fun request => ⟨rfl, fun builtin value hother => ?_⟩) _
    exact absurd ⟨builtin, value, hother⟩ hopens

omit [Callable φ] in
theorem Interpreter.Enters.visiting {scope inner : Scope φ} {call : Call} {inverse : Bool}
    {blocks : List (Call × Bool)} (h : interpreter.Enters scope call inverse inner)
    {run run' : Run (List (Scope φ)) String}
    (hrun : (Run.visiting fun innermost => ∃ contexts, interpreter.Descends inner blocks contexts innermost).Related
      run run') :
    (Run.visiting fun innermost =>
      ∃ contexts, interpreter.Descends scope ((call, inverse) :: blocks) contexts innermost).Related run run' := by
  refine Run.visiting_mono ?_ hrun
  rintro innermost ⟨contexts, hdescends⟩
  exact ⟨_, .enter h hdescends⟩

/-- Rendering comes to a gap only through the bodies of the blocks around it, one after another. -/
theorem Gap.render_descends (hinterpreter : ∀ holds, interpreter.Related (Run.visiting holds) interpreter)
    (filling : List Node) (gap : Gap) (scope : Scope φ) :
    let hole : Body φ (List (Scope φ)) := fun scope => do Run.visit scope; interpreter.nodes scope filling
    (Run.visiting fun innermost => ∃ contexts, interpreter.Descends scope gap.blocks contexts innermost).Related
      (gap.render interpreter hole scope) (gap.render interpreter hole scope) := by
  intro hole
  have hnodes : ∀ (holds : Scope φ → Prop) (scope : Scope φ) (nodes : List Node),
      (Run.visiting holds).Related (interpreter.nodes scope nodes) (interpreter.nodes scope nodes) :=
    fun holds scope nodes => (hinterpreter holds).nodes (.refl _ scope) nodes (Nat.le_refl _)
  have hsame : ∀ (scope : Scope φ) (call : Call), Call.Same scope scope call call :=
    fun scope call => (Scope.Agree.refl call.depth scope).same (Nat.le_refl _)
  induction gap generalizing scope with
  | here before after =>
    refine (hinterpreter _).between (Run.Congruence.bind_related _ ?_ fun _ => hnodes _ scope filling)
    exact Run.visiting_visit ⟨[], .here scope⟩
  | inProgram before call inner inverse after ih =>
    refine (hinterpreter _).between ((hinterpreter _).block_of_asksOnly (hsame scope call) rfl ?_
      fun path hhead helper params contexts hmeaning invocation => interpreter.asksOnly_entered hhead hmeaning)
    intro request henters
    cases hinverse : request.inverse with
    | false =>
      rw [hinverse] at henters
      exact .some (henters.visiting (ih _))
    | true =>
      cases inverse with
      | none => exact .none
      | some inverse => exact .some (hnodes _ _ inverse)
  | inInverse before call program inner after ih =>
    refine (hinterpreter _).between ((hinterpreter _).block_of_asksOnly (hsame scope call) rfl ?_
      fun path hhead helper params contexts hmeaning invocation => interpreter.asksOnly_entered hhead hmeaning)
    intro request henters
    cases hinverse : request.inverse with
    | false => exact .some (hnodes _ _ program)
    | true =>
      rw [hinverse] at henters
      exact .some (henters.visiting (ih _))

end

/-! ### Steps to the parents -/

/-- A path of a tag that takes more steps to the parents than there are contexts writes nothing. -/
theorem Interpreter.node_mustache_of_absent [Callable φ] {σ : Type} (interpreter : Interpreter φ σ) {scope : Scope φ}
    {call : Call} {path : Path} (hhead : call.head = .path path) (hdepth : path.depth ≠ 0)
    (habsent : scope.find? path = none) (escaped : Bool) :
    interpreter.node scope (.mustache call escaped) = pure "" := by
  have hconsults : interpreter.consults path = false := by
    simp [Interpreter.consults, Path.isSimple, hdepth]
  have hmeaning : interpreter.meaning false path call scope = .value .null := by
    simp [Interpreter.meaning, hconsults, habsent]
  rw [Interpreter.node, hhead]
  simp only [Interpreter.tag, hmeaning, pure_bind]
  cases escaped <;> rfl

/-- **Steps to the parents count the blocks around a tag.** Rendering a template with a filled gap
comes to the gap only in scopes whose contexts are those of the root and of the blocks around the
gap. A path there counts its steps to the parents along them, and beyond the root it leads
nowhere. -/
theorem Gap.visited_frames [Callable φ] (gap : Gap) (options : CompileOptions) (filling : List Node)
    (context : Value φ) (environment : Environment φ) (limit : Nat) :
    let interpreter : Interpreter φ (List (Scope φ)) := environment.interpreter options limit
    let watched := gap.watch options filling context environment (limit + 1) []
    watched.1 = ((gap.template options filling).run .plain environment (limit + 1) context environment.data ()).1 ∧
    ∀ scope ∈ watched.2, ∃ contexts,
      interpreter.Descends (options.root context environment.data) gap.blocks contexts scope ∧
      contexts.length = gap.blocks.length ∧
      ∀ path, scope.find? path =
          (if path.depth ≤ gap.blocks.length then
            ((context :: contexts)[gap.blocks.length - path.depth]?).bind (Value.descend? path.segments)
          else none) ∧
        (gap.blocks.length < path.depth → ∀ call escaped, call.head = .path path →
          interpreter.node scope (.mustache call escaped) = pure "") := by
  intro interpreter watched
  have hinterpreter : ∀ holds, interpreter.Related (Run.visiting holds) interpreter :=
    fun holds => Environment.interpreter_related_self (fun _ _ hscope => .inl hscope) environment options limit
  refine ⟨watch_outcome (limit + 1) [], fun scope hscope => ?_⟩
  obtain hnone | ⟨contexts, hdescends⟩ :=
    Gap.render_descends hinterpreter filling gap (options.root context environment.data) [] scope hscope
  · nomatch hnone
  · have hfind := hdescends.find?_eq rfl
    refine ⟨contexts, hdescends, hdescends.length_eq, fun path => ⟨hfind path, ?_⟩⟩
    intro hdepth call escaped hhead
    have habsent : scope.find? path = none := by
      rw [hfind path, if_neg (Nat.not_le.2 hdepth)]
    exact interpreter.node_mustache_of_absent hhead (Nat.ne_of_gt (Nat.zero_lt_of_lt hdepth)) habsent escaped

/-- From the inverse body of a condition in a list in a section, three steps lead to the root, and a
fourth leads nowhere. -/
theorem visited_frames_nested :
    let name (text : String) (depth : Nat) (segment : String) : Expr := .path ⟨text, depth, false, [segment]⟩
    let up : Call := ⟨name "../../../owner" 3 "owner", [], [], ⟨41, 55⟩⟩
    let beyond : Call := ⟨name "../../../../owner" 4 "owner", [], [], ⟨59, 76⟩⟩
    let gap : Gap :=
      .inProgram [] ⟨name "house" 0 "house", [], [], ⟨3, 8⟩⟩
        (.inProgram [] ⟨name "each" 0 "each", [name "rooms" 0 "rooms"], [], ⟨13, 23⟩⟩
          (.inInverse [] ⟨name "if" 0 "if", [name "big" 0 "big"], [], ⟨28, 34⟩⟩ [] (.here [] []) []) none [])
        none []
    let context : Value Empty := .object [("house", .object [("rooms", .array
      [.object [("big", .boolean true)], .object [("big", .boolean false)]])]), ("owner", .string "Ann")]
    let environment : Environment Empty := {}
    let filling : List Node := [.mustache up true, .mustache beyond true]
    ((gap.template {} filling).run .plain environment 1 context none ()).1 = .done "Ann" ∧
    ∃ scope ∈ (gap.watch {} filling context environment 1 []).2,
      scope.find? ⟨"../../../owner", 3, false, ["owner"]⟩ = some (.string "Ann") ∧
      (environment.interpreter {} 0 : Interpreter Empty (List (Scope Empty))).node scope (.mustache beyond true) =
        pure "" := by
  intro name up beyond gap context environment filling
  have hvisits : (gap.watch {} filling context environment 1 []).2.length = 1 := rfl
  obtain ⟨scope, hscope⟩ := List.exists_mem_of_length_pos (hvisits ▸ Nat.one_pos)
  obtain ⟨houtcome, hvisited⟩ := gap.visited_frames {} filling context environment 0
  obtain ⟨contexts, -, -, hpaths⟩ := hvisited scope hscope
  have hwatched : (gap.watch {} filling context environment 1 []).1 = .done "Ann" := by decide +kernel
  refine ⟨houtcome.symm.trans hwatched, scope, hscope, (hpaths _).1, (hpaths _).2 ?_ beyond true rfl⟩
  exact (by decide : 3 < 4)

end Stencil
