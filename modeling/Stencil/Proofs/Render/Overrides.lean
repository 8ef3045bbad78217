import Stencil.Demo.Page
import Stencil.Proofs.Render.Inclusion
import Stencil.Proofs.Render.Invariance
import Stencil.Proofs.Table

/-!
# Data frames that helpers give to bodies

A helper can give a data frame to the body that it asks for. Where data is tracked, whatever is
called inside that body sees this frame, unless a body further inside is given one of its own.
Partials keep the frame of their tag. What is entered is left again, so a frame reaches nothing
beside the body that it was given to.
-/

namespace Stencil

variable {φ : Type}

/-- The data frame inside some bodies, the innermost one first: the frame that the first of them was
given that was given any, or else that of the root. -/
def BodyRequest.innermostData (root : Option (Table (Value φ))) : List (BodyRequest φ) → Option (Table (Value φ))
  | [] => root
  | request :: outer => request.data.or (innermostData root outer)

namespace Event

def record (event : Event φ) (events : List (Event φ)) : List (Event φ) :=
  events ++ [event]

/-- How an event changes the bodies that are being rendered, of which the innermost one is the
first. -/
def track (opened : List (BodyRequest φ)) : Event φ → List (BodyRequest φ)
  | .entered request => request :: opened
  | .left => opened.tail
  | .called _ _ => opened
  | .included _ => opened

/-- The bodies that are still being rendered after some events. -/
def pending (events : List (Event φ)) : List (BodyRequest φ) :=
  events.foldl track []

@[simp]
theorem pending_concat (events : List (Event φ)) (event : Event φ) :
    pending (events ++ [event]) = track (pending events) event :=
  List.foldl_concat ..

/-- Events among which each body that is entered is left again, the innermost one first. -/
inductive Balanced : List (Event φ) → Prop where
  | nil : Balanced []
  | called (isBuiltin : Bool) (invocation : Invocation φ) : Balanced [.called isBuiltin invocation]
  | included (context : Value φ) : Balanced [.included context]
  | append {first rest : List (Event φ)} : Balanced first → Balanced rest → Balanced (first ++ rest)
  | body (request : BodyRequest φ) {inside : List (Event φ)} : Balanced inside →
    Balanced (.entered request :: (inside ++ [.left]))

theorem Balanced.foldl_track {events : List (Event φ)} (h : Balanced events) (opened : List (BodyRequest φ)) :
    events.foldl track opened = opened := by
  induction h generalizing opened with
  | nil => rfl
  | called isBuiltin invocation => rfl
  | included context => rfl
  | append _ _ ihfirst ihrest => rw [List.foldl_append, ihfirst, ihrest]
  | body request _ ih =>
    rw [List.foldl_cons, List.foldl_append, ih]
    rfl

/-- What is entered and left again is not pending. -/
theorem pending_append {inside : List (Event φ)} (hinside : Balanced inside) (events : List (Event φ)) :
    pending (events ++ inside) = pending events := by
  rw [pending, List.foldl_append, hinside.foldl_track]
  rfl

/-- Whatever is called sees the data frame of the innermost body around it that was given one. -/
def SeesInnermost (root : Option (Table (Value φ))) (events : List (Event φ)) : Prop :=
  ∀ before isBuiltin invocation after, events = before ++ .called isBuiltin invocation :: after →
    invocation.data = BodyRequest.innermostData root (pending before)

theorem SeesInnermost.concat {root : Option (Table (Value φ))} {events : List (Event φ)} {event : Event φ}
    (h : SeesInnermost root events) (hevent : ∀ isBuiltin invocation, event = .called isBuiltin invocation →
      invocation.data = BodyRequest.innermostData root (pending events)) :
    SeesInnermost root (events ++ [event]) := by
  intro before isBuiltin invocation after heq
  rcases List.eq_nil_or_concat after with rfl | ⟨rest, last, rfl⟩
  · obtain ⟨rfl, hlast⟩ := List.append_inj' heq rfl
    exact hevent isBuiltin invocation (List.singleton_inj.1 hlast)
  · have hsplit : events ++ [event] = (before ++ .called isBuiltin invocation :: rest) ++ [last] := by
      rw [heq, List.append_assoc, List.concat_eq_append]
      rfl
    obtain ⟨rfl, -⟩ := List.append_inj' hsplit rfl
    exact h before isBuiltin invocation rest rfl

theorem SeesInnermost.concat_of_isCall {root : Option (Table (Value φ))} {events : List (Event φ)} {event : Event φ}
    (h : SeesInnermost root events) (hevent : event.isCall = false) : SeesInnermost root (events ++ [event]) := by
  refine h.concat ?_
  rintro isBuiltin invocation rfl
  cases hevent

end Event

open Event

/-! ### Runs -/

/-- A run that takes place in the scope of the bodies that are pending: whatever it calls sees the
innermost frame, and it leaves what it enters, unless it is exhausted. -/
def Run.lending (root : Option (Table (Value φ))) : Run.Invariant φ (List (Event φ)) where
  Holds scope run := ∀ events, SeesInnermost root events →
    BodyRequest.innermostData root (pending events) = scope.data →
    SeesInnermost root (run events).2 ∧
      ((run events).1 = .exhausted ∨ ∃ inside, Balanced inside ∧ (run events).2 = events ++ inside)
  pure_holds _ _ := fun events hsees _ => ⟨hsees, .inr ⟨[], .nil, (List.append_nil events).symm⟩⟩
  bind_holds := by
    intro α β scope run next hrun hnext events hsees hdata
    have hfirst := hrun events hsees hdata
    rw [Run.bind_apply]
    generalize run events = ended at hfirst
    obtain ⟨outcome, between⟩ := ended
    obtain ⟨hbetween, hleft⟩ := hfirst
    cases outcome with
    | exhausted => exact ⟨hbetween, .inl rfl⟩
    | failed error =>
      obtain hexhausted | hinside := hleft
      · cases hexhausted
      · exact ⟨hbetween, .inr hinside⟩
    | done result =>
      obtain hexhausted | ⟨inside, hinside, rfl⟩ := hleft
      · cases hexhausted
      · obtain ⟨hafter, hrest⟩ := hnext result _ hbetween (by rw [pending_append hinside, hdata])
        refine ⟨hafter, hrest.imp_right ?_⟩
        rintro ⟨more, hmore, heq⟩
        exact ⟨inside ++ more, hinside.append hmore, by rw [heq, List.append_assoc]⟩

theorem Run.fail_lending {α : Type} {root : Option (Table (Value φ))} (scope : Scope φ) (error : RenderError) :
    (Run.lending root).Holds scope (Run.fail error : Run _ α) :=
  fun events hsees _ => ⟨hsees, .inr ⟨[], .nil, (List.append_nil events).symm⟩⟩

namespace Interpreter

variable {interpreter : Interpreter φ (List (Event φ))} (hnote : interpreter.note = record)
  {root : Option (Table (Value φ))} {scope : Scope φ}

include hnote

theorem observe_called_lending {isBuiltin : Bool} {invocation : Invocation φ} (h : invocation.data = scope.data) :
    (Run.lending root).Holds scope (interpreter.observe (.called isBuiltin invocation)) := by
  intro events hsees hdata
  rw [observe, hnote]
  refine ⟨hsees.concat ?_, .inr ⟨_, .called isBuiltin invocation, rfl⟩⟩
  rintro _ _ ⟨⟩
  rw [h, hdata]

theorem body_lending (htracks : interpreter.options.data = true) {request : BodyRequest φ}
    {body : Run (List (Event φ)) String} (h : (Run.lending root).Holds (interpreter.entered scope request) body) :
    (Run.lending root).Holds scope (do
      interpreter.observe (.entered request)
      let text ← Run.attempt body
      interpreter.observe .left
      return text) := by
  intro events hsees hdata
  have hopened : SeesInnermost root (events ++ [.entered request]) := hsees.concat_of_isCall rfl
  have hframe : BodyRequest.innermostData root (pending (events ++ [.entered request])) =
      (interpreter.entered scope request).data := by
    rw [pending_concat, track, BodyRequest.innermostData, hdata, entered, htracks]
    rfl
  have hbody := h _ hopened hframe
  have hleave : ∀ between, SeesInnermost root between →
      (∃ inside, Balanced inside ∧ between = events ++ [.entered request] ++ inside) →
      SeesInnermost root (between ++ [.left]) ∧
        ∃ inside, Balanced inside ∧ between ++ [.left] = events ++ inside := by
    rintro _ hbetween ⟨inside, hinside, rfl⟩
    refine ⟨hbetween.concat_of_isCall rfl, _, hinside.body request, ?_⟩
    simp only [List.append_assoc, List.cons_append, List.nil_append]
  simp only [Run.bind_apply, observe, hnote, record, Run.attempt]
  generalize body (events ++ [.entered request]) = ended at hbody
  obtain ⟨outcome, between⟩ := ended
  obtain ⟨hbetween, hexhausted | hinside⟩ := hbody
  · obtain rfl : outcome = .exhausted := hexhausted
    exact ⟨hbetween, .inl rfl⟩
  · cases outcome with
    | exhausted => exact ⟨hbetween, .inl rfl⟩
    | failed error => exact (hleave between hbetween hinside).imp_right .inr
    | done text => exact (hleave between hbetween hinside).imp_right .inr

end Interpreter

/-! ### Templates -/

namespace ParsedEnvironment

/-- All compiled partials that some nodes lead to track data. -/
def TracksData (environment : ParsedEnvironment φ) (nodes : List Node) : Prop :=
  ∀ name included, environment.Reaches nodes name → environment.partials.find? name = some (.template included) →
    included.options.data = true

theorem TracksData.through {environment : ParsedEnvironment φ} {nodes : List Node} (h : environment.TracksData nodes)
    {name : String} {context : Option Expr} {template : ParsedTemplate}
    (hname : Node.Among (.inclusion name context) nodes) (hprovides : environment.Provides name template) :
    environment.TracksData template.nodes :=
  fun other included hother => h other included (.through hname hprovides hother)

/-- A partial lends frames as its template does. A function that is a partial enters no bodies. -/
theorem renderPartial_lending (environment : ParsedEnvironment φ) {root : Option (Table (Value φ))} {scope : Scope φ}
    {nested : ParsedTemplate → Value φ → Option (Table (Value φ)) → Run (List (Event φ)) String}
    {trackData : Bool} {name : String} {value : Value φ}
    (hnested : ∀ included, environment.Provides name included →
      (included.options.data = trackData ∨ environment.partials.find? name = some (.template included)) →
      (Run.lending root).Holds scope (nested included value scope.data)) :
    (Run.lending root).Holds scope (environment.renderPartial record nested trackData name value scope.data) := by
  rcases environment.renderPartial_cases record trackData name with
    ⟨-, hrender⟩ | ⟨_, _, -, -, hrender⟩ | ⟨call, -, hrender⟩ | ⟨included, hprovides, hoptions, hrender⟩
  · rw [hrender]
    exact Run.fail_lending scope _
  · rw [hrender]
    exact Run.fail_lending scope _
  · rw [hrender]
    intro events hsees _
    have hincluded := Run.ofExcept_state (call value) (events ++ [.included value])
    refine ⟨?_, .inr ⟨_, .included value, hincluded⟩⟩
    show SeesInnermost root (Run.ofExcept (call value) (events ++ [.included value])).2
    rw [hincluded]
    exact hsees.concat_of_isCall rfl
  · rw [hrender]
    exact hnested included hprovides hoptions

end ParsedEnvironment

variable [Callable φ] {environment : ParsedEnvironment φ} {template : ParsedTemplate}

theorem ParsedTemplate.interpret_lending (root : Option (Table (Value φ))) (htracks : template.options.data = true)
    (hpartials : environment.TracksData template.nodes) (limit : Nat) (context : Value φ) (scope : Scope φ) :
    (Run.lending root).Holds scope (template.interpret record environment limit context scope.data) := by
  induction limit generalizing template context scope with
  | zero => exact fun events hsees _ => ⟨hsees, .inl rfl⟩
  | succ limit ih =>
    have hkeeps : (template.interpreter record environment (interpret record environment limit)).Keeps
        (Run.lending root) template.nodes :=
      { tag := by
          apply Interpreter.tag_holds Run.fail_lending (Interpreter.body_lending rfl htracks)
          intro path call scope helper invocation hcalls
          exact Interpreter.observe_called_lending rfl hcalls.data
        inclusion := by
          intro name inner hinner scope value
          apply environment.renderPartial_lending
          intro included hprovides hoptions
          refine ih ?_ (hpartials.through hinner hprovides) value scope
          rcases hoptions with hinherited | hfound
          · rw [hinherited, htracks]
          · exact hpartials name included (.of_among hinner) hfound }
    have hroot : (template.options.root context scope.data).data = scope.data := by
      rw [CompileOptions.root, htracks]
      rfl
    intro events hsees hdata
    rw [interpret_succ]
    exact hkeeps.nodes _ events hsees (hdata.trans hroot.symm)

/-- **Where data is tracked, the innermost override counts.** Let a template track data, and all
compiled partials that it leads to. Then in every run, whatever is called sees the data frame that
was given to the innermost body around it that was given one, also across partials, or else the
frame at the root. A body that has been left makes no difference any more, and in the end all are,
unless the run is exhausted. -/
theorem called_with_innermost_data (htracks : template.options.data = true)
    (hpartials : environment.TracksData template.nodes) (limit : Nat) (context : Value φ)
    (root : Option (Table (Value φ))) :
    let result := template.compile.run .recording environment.compile limit context root []
    (∀ before isBuiltin invocation after, result.2 = before ++ .called isBuiltin invocation :: after →
      invocation.data = BodyRequest.innermostData root (pending before)) ∧
    (∀ before request inside between isBuiltin invocation after, Balanced inside → Balanced between →
      result.2 =
        before ++ .entered request :: (inside ++ .left :: (between ++ .called isBuiltin invocation :: after)) →
      invocation.data = BodyRequest.innermostData root (pending before)) ∧
    (result.1 ≠ .exhausted → Balanced result.2) := by
  intro result
  have hrun : result = template.interpret record environment limit context root [] :=
    congrFun (congrFun (congrFun (run_compile _ environment limit template) context) root) []
  have hstart : SeesInnermost root ([] : List (Event φ)) := by
    intro before isBuiltin invocation after heq
    exact absurd heq.symm (List.append_ne_nil_of_right_ne_nil _ (List.cons_ne_nil _ _))
  obtain ⟨hsees, hend⟩ :=
    ParsedTemplate.interpret_lending root htracks hpartials limit context ⟨context, [], root⟩ [] hstart rfl
  rw [← hrun] at hsees hend
  refine ⟨hsees, ?_, ?_⟩
  · intro before request inside between isBuiltin invocation after hinside hbetween heq
    have hbody : Balanced (.entered request :: (inside ++ [.left]) ++ between) :=
      (hinside.body request).append hbetween
    rw [← pending_append hbody before]
    refine hsees _ isBuiltin invocation after ?_
    simp only [heq, List.append_assoc, List.cons_append, List.nil_append]
  · intro hdone
    rcases hend with hexhausted | ⟨inside, hinside, heq⟩
    · exact absurd hexhausted hdone
    · rwa [heq]

/-- A frame that is lent to a body reaches a condition and a partial inside, but not the tag behind
the block. -/
theorem called_with_innermost_data_lent :
    let call (name : String) (params : List Expr) : Call := ⟨.path ⟨name, 0, false, [name]⟩, params, [], ⟨0, 0⟩⟩
    let peek : Node := .mustache (call "peek" []) true
    let row : ParsedTemplate := ⟨[peek], { data := true }⟩
    let inner : Node := .block (call "if" [.literal (.boolean true)]) [peek, .inclusion "row" none] none
    let page : ParsedTemplate := ⟨[.block (call "lend" []) [inner] none, peek], { data := true }⟩
    let lend : Helper Empty := .custom fun _ =>
      .string <$> Action.render { inverse := false, data := some [("user", .string "Ann")] }
    let environment : ParsedEnvironment Empty :=
      { helpers := [("if", .builtin .ifHelper), ("lend", lend),
          ("peek", .custom fun invocation => pure ((invocation.data.bind (Table.find? "user")).getD .null))]
        partials := [("row", .template row)] }
    let root : Option (Table (Value Empty)) := some [("user", .string "Bob")]
    let result := page.compile.run .recording environment.compile 2 .null root []
    result.1 = .done "AnnAnnBob" ∧ Balanced result.2 ∧
      ∀ before isBuiltin invocation after, result.2 = before ++ .called isBuiltin invocation :: after →
        invocation.data = BodyRequest.innermostData root (pending before) := by
  intro call peek row inner page lend environment root result
  have hpartials : environment.TracksData page.nodes := by
    intro name included _ hfound
    obtain ⟨-, hincluded⟩ := Prod.mk.inj (List.mem_singleton.1 (Table.mem_of_find? hfound))
    obtain rfl := ParsedPartial.template.inj hincluded
    rfl
  have hdone : result.1 = .done "AnnAnnBob" := by decide +kernel
  have htracks : page.options.data = true := rfl
  obtain ⟨hsees, -, hbalanced⟩ := called_with_innermost_data htracks hpartials 2 .null root
  exact ⟨hdone, hbalanced (by rw [hdone]; nofun), hsees⟩

end Stencil
