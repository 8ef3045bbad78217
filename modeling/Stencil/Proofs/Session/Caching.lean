import Stencil.Demo.Page
import Stencil.Proofs.Render.Slots
import Stencil.Session.Basic
import Mathlib.Logic.Function.Basic

/-!
# Sessions do not show what they keep

A session gives each text that is registered a number of its own, and its copies of the environment
share the slots under these numbers. In every session that can be reached, the slots are sound. So
two sessions that differ only in their slots and numbers answer every step alike, and stay so.
-/

namespace Stencil

variable {φ : Type}

def Partial.toSource : Partial φ → PartialSource φ
  | .source registered => .text registered.text
  | .compiled template => .compiled template
  | .function render => .function render

/-- Whether a step leaves the templates and the copies of the environment as they are. -/
def Step.keepsCopies : Step φ → Bool
  | .compile _ _ _ => false
  | .save _ => false
  | _ => true

/-! ### Numbers in a session -/

/-- The texts of an environment are registered under their numbers, and its names are in their
order. -/
structure Environment.Numbered (texts : Nat → String) (bound : Nat) (environment : Environment φ) : Prop where
  registered : ∀ name registered, (name, .source registered) ∈ environment.partials →
    registered.Numbered texts bound
  sorted : environment.partials.Sorted

namespace Environment.Numbered

variable {texts : Nat → String} {bound : Nat} {environment : Environment φ}

theorem mono (h : environment.Numbered texts bound) {texts' : Nat → String} {bound' : Nat}
    (htexts : ∀ cell < bound, texts' cell = texts cell) (hbound : bound ≤ bound') :
    environment.Numbered texts' bound' :=
  ⟨fun name registered hmem => (h.registered name registered hmem).mono htexts hbound, h.sorted⟩

theorem insert (h : environment.Numbered texts bound) (name : String) {included : Partial φ}
    (hincluded : ∀ registered, included = .source registered → registered.Numbered texts bound) :
    Environment.Numbered texts bound { environment with partials := environment.partials.insert name included } := by
  refine ⟨fun other registered hmem => ?_, h.sorted.insert name included⟩
  rcases Table.mem_of_mem_insert hmem with heq | hmem
  · exact hincluded registered (Prod.mk.inj heq).2.symm
  · exact h.registered other registered hmem

end Environment.Numbered

namespace Environment.Alike

variable {environment environment' : Environment φ} (h : environment.Alike environment')

include h

theorem names_eq : environment.partials.names = environment'.partials.names :=
  h.partials.map_eq fun _ _ _ _ => rfl

theorem contains_eq (name : String) : environment.partials.contains name = environment'.partials.contains name := by
  have hfind := h.partials.find? name
  rw [Table.contains, Table.contains]
  generalize environment.partials.find? name = found at hfind ⊢
  generalize environment'.partials.find? name = found' at hfind ⊢
  cases hfind <;> rfl

theorem describe_eq :
    (environment.partials.map fun entry => entry.2.describe?) =
      environment'.partials.map fun entry => entry.2.describe? := by
  refine h.partials.map_eq fun _ included included' hincluded => ?_
  cases hincluded with
  | source htext => simp only [Partial.describe?, htext]
  | compiled template => rfl
  | function render => rfl

end Environment.Alike

/-- A session whose slots are sound for the texts in its environment and in the copies of it. -/
structure Session.Sound (texts : Nat → String) (session : Session φ) : Prop where
  cache : session.cache.Sound texts session.nextCell
  environment : session.environment.Numbered texts session.nextCell
  saved : ∀ name environment, (name, environment) ∈ session.saved →
    environment.Numbered texts session.nextCell

namespace Session

variable {texts texts' : Nat → String} {session session' : Session φ}

theorem Sound.start (texts : Nat → String) : Sound texts ({} : Session φ) :=
  ⟨.nil texts 0, ⟨nofun, List.Pairwise.nil⟩, nofun⟩

/-- A text is registered in the environment of the session or in a copy of it. -/
def Registers (session : Session φ) (registered : SourcePartial) : Prop :=
  ∃ environment, (environment = session.environment ∨ ∃ name, (name, environment) ∈ session.saved) ∧
    ∃ name, (name, .source registered) ∈ environment.partials

theorem Sound.numbered (h : session.Sound texts) {registered : SourcePartial}
    (hregisters : session.Registers registered) : registered.Numbered texts session.nextCell := by
  obtain ⟨environment, rfl | ⟨name, hsaved⟩, other, hmem⟩ := hregisters
  · exact h.environment.registered other registered hmem
  · exact (h.saved name environment hsaved).registered other registered hmem

theorem Sound.addText (h : session.Sound texts) (name text : String) :
    Sound (Function.update texts session.nextCell text)
      { session.addPartial name (.source ⟨text, session.nextCell⟩) with nextCell := session.nextCell + 1 } := by
  have htexts : ∀ cell < session.nextCell, Function.update texts session.nextCell text cell = texts cell :=
    fun cell hcell => Function.update_of_ne (Nat.ne_of_lt hcell) _ _
  have hbound := Nat.le_succ session.nextCell
  refine ⟨h.cache.mono htexts hbound, (h.environment.mono htexts hbound).insert name ?_,
    fun other environment hmem => (h.saved other environment hmem).mono htexts hbound⟩
  rintro registered heq
  obtain rfl := Partial.source.inj heq
  exact ⟨Nat.lt_succ_self _, Function.update_self ..⟩

theorem Sound.addPartial (h : session.Sound texts) (name : String) {included : Partial φ}
    (hincluded : ∀ registered, included ≠ .source registered) : Sound texts (session.addPartial name included) :=
  ⟨h.cache, h.environment.insert name fun registered heq => absurd heq (hincluded registered), h.saved⟩

/-- The compiled form of a text is that of the text, whether it is in a slot or not. -/
theorem Sound.compilePartial_eq (h : session.Sound texts) {name : String} {registered : SourcePartial}
    (hfound : session.environment.partials.find? name = some (.source registered)) (trackData : Bool) :
    ∃ after : Cache, after.Sound texts session.nextCell ∧ session.compilePartial name trackData =
      (match Template.compile registered.text (SourcePartial.options trackData) with
        | .ok template => .form (.template template.options)
        | .error error => .unparsable error, { session with cache := after }) := by
  obtain ⟨hcompile, hafter⟩ :=
    h.cache.compile (h.environment.registered name registered (Table.mem_of_find? hfound)) trackData
  refine ⟨_, hafter, ?_⟩
  simp only [compilePartial, hfound, ← hcompile]
  generalize session.cache.compile registered trackData = compiled
  rcases compiled with ⟨error | template, after⟩ <;> rfl

theorem Sound.withCache (h : session.Sound texts) {cache : Cache} (hcache : cache.Sound texts session.nextCell) :
    Sound texts { session with cache } :=
  ⟨hcache, h.environment, h.saved⟩

theorem Sound.withEnvironment (h : session.Sound texts) {environment : Environment φ}
    (henvironment : environment.Numbered texts session.nextCell) : Sound texts { session with environment } :=
  ⟨h.cache, henvironment, h.saved⟩

theorem Sound.withHelpers (h : session.Sound texts) (helpers : Table (Helper φ)) :
    (session.withHelpers helpers).Sound texts :=
  h.withEnvironment ⟨h.environment.registered, h.environment.sorted⟩

theorem Sound.compilePartial (h : session.Sound texts) (name : String) (trackData : Bool) :
    (session.compilePartial name trackData).2.Sound texts := by
  cases hfound : session.environment.partials.find? name with
  | none =>
    rw [Session.compilePartial, hfound]
    exact h
  | some included =>
    cases included with
    | source registered =>
      obtain ⟨after, hafter, heq⟩ := h.compilePartial_eq hfound trackData
      rw [heq]
      exact h.withCache hafter
    | compiled template =>
      rw [Session.compilePartial, hfound]
      exact h
    | function render =>
      rw [Session.compilePartial, hfound]
      exact h

theorem Sound.save (h : session.Sound texts) (name : String) :
    Sound texts { session with saved := session.saved.insert name session.environment } := by
  refine ⟨h.cache, h.environment, fun other environment hmem => ?_⟩
  rcases Table.mem_of_mem_insert hmem with heq | hmem
  · rw [(Prod.mk.inj heq).2]
    exact h.environment
  · exact h.saved other environment hmem

/-! ### Steps -/

section Steps

variable [Callable φ]

/-- A session renders as if there were no slots, also with other numbers for its partials, and its
slots stay sound. -/
theorem Sound.render_eq (h : session.Sound texts) {environment : Environment φ}
    (halike : session.environment.Alike environment) (template : Template) (context : Value φ) :
    ∃ after : Cache, after.Sound texts session.nextCell ∧ session.render template context =
      (.rendered (template.renderRecording context environment).1 (template.renderRecording context environment).2,
        { session with cache := after }) := by
  obtain ⟨after, hafter, hrun⟩ := Template.run_keeping halike h.environment.registered Template.nestingLimit
    template context session.environment.data session.cache [] h.cache
  refine ⟨after, hafter, ?_⟩
  rw [Session.render, hrun, halike.data]
  rfl

theorem Sound.registerPartial (h : session.Sound texts) (name : String) (source : PartialSource φ) :
    ∃ texts', (session.step (.registerPartial name source)).2.Sound texts' := by
  cases source with
  | text text => exact ⟨_, h.addText name text⟩
  | compiled template => exact ⟨texts, h.addPartial name nofun⟩
  | function render => exact ⟨texts, h.addPartial name nofun⟩

theorem Sound.render (h : session.Sound texts) (template : String) (context : Except String (Value φ)) :
    (session.step (.render template context)).2.Sound texts := by
  simp only [Session.step]
  split
  · exact h
  · exact h
  · next template context _ =>
    obtain ⟨after, hafter, heq⟩ := h.render_eq (.refl _) template context
    rw [heq]
    exact h.withCache hafter

/-- Each step keeps a session sound, perhaps for one text more. -/
theorem Sound.step (h : session.Sound texts) (step : Step φ) : ∃ texts', (session.step step).2.Sound texts' := by
  cases step with
  | compile name source options =>
    rw [Session.step]
    split
    · exact ⟨texts, h.cache, h.environment, h.saved⟩
    · exact ⟨texts, h⟩
  | aliasHelper name existing =>
    rw [Session.step]
    split
    · exact ⟨texts, h.withHelpers _⟩
    · exact ⟨texts, h⟩
  | registerPartial name source => exact h.registerPartial name source
  | registerTemplate name template =>
    rw [Session.step]
    split
    · exact ⟨texts, h.addPartial name nofun⟩
    · exact ⟨texts, h⟩
  | clearPartials => exact ⟨texts, h.withEnvironment ⟨nofun, List.Pairwise.nil⟩⟩
  | compilePartial name trackData => exact ⟨texts, h.compilePartial name trackData⟩
  | setData data => exact ⟨texts, h.withEnvironment ⟨h.environment.registered, h.environment.sorted⟩⟩
  | save name => exact ⟨texts, h.save name⟩
  | load name =>
    rw [Session.step]
    split
    · next environment hfound => exact ⟨texts, h.withEnvironment (h.saved _ _ (Table.mem_of_find? hfound))⟩
    · exact ⟨texts, h⟩
  | render template context => exact ⟨texts, h.render template context⟩
  | registerHelper | removeHelper | clearHelpers | resetHelpers => exact ⟨texts, h.withHelpers _⟩
  | hasHelper | hasPartial | listPartials | describe => exact ⟨texts, h⟩

end Steps

/-! ### Sessions up to their slots -/

/-- The same session, perhaps with other slots and other numbers. -/
structure Alike (session session' : Session φ) : Prop where
  templates : session.templates = session'.templates
  environment : session.environment.Alike session'.environment
  saved : Table.Rel Environment.Alike session.saved session'.saved

namespace Alike

variable (h : session.Alike session')

include h

theorem withHelpers {helpers helpers' : Table (Helper φ)} (hhelpers : helpers = helpers') :
    (session.withHelpers helpers).Alike (session'.withHelpers helpers') :=
  ⟨h.templates, ⟨hhelpers, h.environment.partials, h.environment.data⟩, h.saved⟩

theorem withPartials {partials partials' : Table (Partial φ)}
    (hpartials : Table.Rel Partial.Alike partials partials') :
    (session.withPartials partials).Alike (session'.withPartials partials') :=
  ⟨h.templates, ⟨h.environment.helpers, hpartials, h.environment.data⟩, h.saved⟩

theorem addPartial (name : String) {included included' : Partial φ} (hincluded : included.Alike included') :
    (session.addPartial name included).Alike (session'.addPartial name included') :=
  h.withPartials (h.environment.partials.insert name hincluded)

theorem compilePartial (hsound : session.Sound texts) (hsound' : session'.Sound texts') (name : String)
    (trackData : Bool) :
    (session.compilePartial name trackData).1 = (session'.compilePartial name trackData).1 ∧
      (session.compilePartial name trackData).2.Alike (session'.compilePartial name trackData).2 := by
  have hfind := h.environment.partials.find? name
  generalize hfound : session.environment.partials.find? name = found at hfind
  generalize hfound' : session'.environment.partials.find? name = found' at hfind
  cases hfind with
  | none =>
    rw [Session.compilePartial, Session.compilePartial, hfound, hfound']
    exact ⟨rfl, h⟩
  | some hincluded =>
    cases hincluded with
    | source htext =>
      obtain ⟨after, -, heq⟩ := hsound.compilePartial_eq hfound trackData
      obtain ⟨after', -, heq'⟩ := hsound'.compilePartial_eq hfound' trackData
      rw [heq, heq', htext]
      exact ⟨rfl, h.templates, h.environment, h.saved⟩
    | compiled template =>
      rw [Session.compilePartial, Session.compilePartial, hfound, hfound']
      exact ⟨rfl, h⟩
    | function render =>
      rw [Session.compilePartial, Session.compilePartial, hfound, hfound']
      exact ⟨rfl, h⟩

end Alike

variable [Callable φ]

/-- A step has the same answer in both, and leaves them alike. -/
def AnswersAlike (session session' : Session φ) (step : Step φ) : Prop :=
  (session.step step).1 = (session'.step step).1 ∧ (session.step step).2.Alike (session'.step step).2

namespace Alike

variable (h : session.Alike session')

include h

theorem compile (name source : String) (options : CompileOptions) :
    session.AnswersAlike session' (.compile name source options) := by
  rw [AnswersAlike, Session.step, Session.step]
  cases Template.compile source options with
  | ok template => exact ⟨rfl, congrArg (Table.insert name template) h.templates, h.environment, h.saved⟩
  | error error => exact ⟨rfl, h⟩

theorem aliasHelper (name existing : String) : session.AnswersAlike session' (.aliasHelper name existing) := by
  rw [AnswersAlike, Session.step, Session.step, h.environment.helpers]
  cases session'.environment.helpers.find? existing with
  | none => exact ⟨rfl, h⟩
  | some helper => exact ⟨rfl, h.withHelpers rfl⟩

theorem registerPartial (name : String) (source : PartialSource φ) :
    session.AnswersAlike session' (.registerPartial name source) := by
  cases source with
  | text text =>
    have hsource : (Partial.source ⟨text, session.nextCell⟩ : Partial φ).Alike
        (.source ⟨text, session'.nextCell⟩) := .source rfl
    exact ⟨rfl, h.templates, (h.addPartial name hsource).environment, h.saved⟩
  | compiled template => exact ⟨rfl, h.addPartial name (.compiled template)⟩
  | function render => exact ⟨rfl, h.addPartial name (.function render)⟩

theorem registerTemplate (name template : String) :
    session.AnswersAlike session' (.registerTemplate name template) := by
  rw [AnswersAlike, Session.step, Session.step, h.templates]
  cases session'.templates.find? template with
  | none => exact ⟨rfl, h⟩
  | some template => exact ⟨rfl, h.addPartial name (.compiled template)⟩

theorem load (name : String) : session.AnswersAlike session' (.load name) := by
  have hfind := h.saved.find? name
  rw [AnswersAlike, Session.step, Session.step]
  generalize session.saved.find? name = found at hfind ⊢
  generalize session'.saved.find? name = found' at hfind ⊢
  cases hfind with
  | none => exact ⟨rfl, h⟩
  | some henvironment => exact ⟨rfl, h.templates, henvironment, h.saved⟩

theorem describe : session.AnswersAlike session' .describe := by
  refine ⟨?_, h⟩
  show Answer.description session.environment.describeHelpers session.environment.describePartials _ =
    Answer.description session'.environment.describeHelpers session'.environment.describePartials _
  rw [h.environment.describe_eq]
  unfold Environment.describeHelpers Environment.describePartials
  rw [h.environment.helpers, h.environment.names_eq]

theorem render (hsound : session.Sound texts) (hsound' : session'.Sound texts') (template : String)
    (context : Except String (Value φ)) : session.AnswersAlike session' (.render template context) := by
  simp only [AnswersAlike, Session.step, h.templates]
  split
  · exact ⟨rfl, h⟩
  · exact ⟨rfl, h⟩
  · next template context _ =>
    obtain ⟨after, -, heq⟩ := hsound.render_eq h.environment template context
    obtain ⟨after', -, heq'⟩ := hsound'.render_eq (.refl _) template context
    rw [heq, heq']
    exact ⟨rfl, h.templates, h.environment, h.saved⟩

/-- Sound sessions that are alike answer a step alike, and stay so. -/
theorem step (hsound : session.Sound texts) (hsound' : session'.Sound texts') (step : Step φ) :
    session.AnswersAlike session' step := by
  have hhelpers := h.environment.helpers
  cases step with
  | compile name source options => exact h.compile name source options
  | registerHelper name helper => exact ⟨rfl, h.withHelpers (by rw [hhelpers])⟩
  | aliasHelper name existing => exact h.aliasHelper name existing
  | removeHelper name =>
    rw [AnswersAlike, Session.step, Session.step, hhelpers]
    exact ⟨rfl, h.withHelpers rfl⟩
  | hasHelper name =>
    rw [AnswersAlike, Session.step, Session.step, hhelpers]
    exact ⟨rfl, h⟩
  | clearHelpers | resetHelpers => exact ⟨rfl, h.withHelpers rfl⟩
  | registerPartial name source => exact h.registerPartial name source
  | registerTemplate name template => exact h.registerTemplate name template
  | hasPartial name => exact ⟨congrArg Answer.present (h.environment.contains_eq name), h⟩
  | listPartials => exact ⟨congrArg Answer.names h.environment.names_eq, h⟩
  | clearPartials => exact ⟨rfl, h.withPartials .nil⟩
  | compilePartial name trackData => exact h.compilePartial hsound hsound' name trackData
  | setData data => exact ⟨rfl, h.templates, ⟨hhelpers, h.environment.partials, rfl⟩, h.saved⟩
  | save name => exact ⟨rfl, h.templates, h.environment, h.saved.insert name h.environment⟩
  | load name => exact h.load name
  | describe => exact h.describe
  | render template context => exact h.render hsound hsound' template context

end Alike

theorem Alike.steps_eq (h : session.Alike session') (hsound : session.Sound texts)
    (hsound' : session'.Sound texts') (later : List (Step φ)) : session.steps later = session'.steps later := by
  induction later generalizing session session' texts texts' with
  | nil => rfl
  | cons step later ih =>
    obtain ⟨hanswer, hafter⟩ := h.step hsound hsound' step
    obtain ⟨_, hnext⟩ := hsound.step step
    obtain ⟨_, hnext'⟩ := hsound'.step step
    rw [Session.steps, Session.steps, hanswer, ih hafter hnext hnext']

/-! ### Histories -/

def after (session : Session φ) (history : List (Step φ)) : Session φ :=
  history.foldl (fun session step => (session.step step).2) session

theorem Sound.after (h : session.Sound texts) (history : List (Step φ)) :
    ∃ texts', (session.after history).Sound texts' := by
  induction history generalizing session texts with
  | nil => exact ⟨texts, h⟩
  | cons step history ih =>
    obtain ⟨_, hnext⟩ := h.step step
    exact ih hnext

omit [Callable φ] in
/-- The steps that register the partials of a table one after another. -/
def registrations (partials : Table (Partial φ)) : List (Step φ) :=
  partials.map fun entry => .registerPartial entry.1 entry.2.toSource

/-- The session with its partials registered anew, and with all slots empty. -/
def rebuilt (session : Session φ) : Session φ :=
  after { session.withPartials [] with cache := [] } (registrations session.environment.partials)

theorem step_registerPartial (session : Session φ) (name : String) (included : Partial φ) :
    ∃ registered cell, included.Alike registered ∧
      (session.step (.registerPartial name included.toSource)).2 =
        { session.addPartial name registered with nextCell := cell } := by
  cases included with
  | source registered =>
    exact ⟨.source ⟨registered.text, session.nextCell⟩, session.nextCell + 1, .source rfl, rfl⟩
  | compiled template => exact ⟨.compiled template, session.nextCell, .compiled template, rfl⟩
  | function render => exact ⟨.function render, session.nextCell, .function render, rfl⟩

/-- Registering sorted partials behind all others adds them in their order. -/
theorem after_registrations (session : Session φ) {partials : Table (Partial φ)} (hsorted : partials.Sorted)
    (hbehind : ∀ entry ∈ session.environment.partials, ∀ other ∈ partials, entry.1 < other.1) :
    ∃ registered cell, Table.Rel Partial.Alike partials registered ∧
      session.after (registrations partials) =
        { session.withPartials (session.environment.partials ++ registered) with nextCell := cell } := by
  induction partials generalizing session with
  | nil =>
    refine ⟨[], session.nextCell, .nil, ?_⟩
    rw [List.append_nil]
    rfl
  | cons entry rest ih =>
    obtain ⟨hentry, hrest⟩ := List.pairwise_cons.1 hsorted
    obtain ⟨included, cell, hincluded, hstep⟩ := session.step_registerPartial entry.1 entry.2
    have hlast : ∀ other ∈ session.environment.partials, other.1 < entry.1 :=
      fun other hother => hbehind other hother entry (.head _)
    rw [Session.addPartial, Table.insert_of_lt hlast] at hstep
    have hnext : ∀ earlier ∈ (session.step (.registerPartial entry.1 entry.2.toSource)).2.environment.partials,
        ∀ other ∈ rest, earlier.1 < other.1 := by
      rw [hstep]
      intro earlier hearlier other hother
      rcases List.mem_append.1 hearlier with hearlier | hearlier
      · exact hbehind earlier hearlier other (.tail _ hother)
      · rw [List.mem_singleton.1 hearlier]
        exact hentry other hother
    obtain ⟨registered, last, hregistered, hafter⟩ := ih _ hrest hnext
    refine ⟨(entry.1, included) :: registered, last, .cons ⟨rfl, hincluded⟩ hregistered, ?_⟩
    show Session.after (session.step (.registerPartial entry.1 entry.2.toSource)).2 (registrations rest) = _
    rw [hafter, hstep]
    simp only [withPartials, List.append_assoc, List.singleton_append]

theorem Sound.rebuilt (h : session.Sound texts) :
    session.Alike session.rebuilt ∧ ∃ texts', session.rebuilt.Sound texts' := by
  have hempty : Sound texts { session.withPartials [] with cache := [] } :=
    ⟨.nil texts _, ⟨nofun, List.Pairwise.nil⟩, h.saved⟩
  obtain ⟨registered, cell, hregistered, hrebuilt⟩ :=
    after_registrations { session.withPartials [] with cache := [] } h.environment.sorted nofun
  refine ⟨?_, hempty.after _⟩
  rw [Session.rebuilt, hrebuilt]
  exact ⟨rfl, ⟨rfl, hregistered, rfl⟩, .refl Environment.Alike.refl _⟩

theorem step_of_keepsCopies (session : Session φ) {step : Step φ} (h : step.keepsCopies = true) :
    (session.step step).2.templates = session.templates ∧ (session.step step).2.saved = session.saved := by
  cases step with
  | compile name source options => cases h
  | save name => cases h
  | aliasHelper name existing =>
    rw [Session.step]
    split <;> exact ⟨rfl, rfl⟩
  | registerPartial name source => cases source <;> exact ⟨rfl, rfl⟩
  | registerTemplate name template =>
    rw [Session.step]
    split <;> exact ⟨rfl, rfl⟩
  | compilePartial name trackData =>
    simp only [Session.step, Session.compilePartial]
    split
    · exact ⟨rfl, rfl⟩
    · exact ⟨rfl, rfl⟩
    · exact ⟨rfl, rfl⟩
    · split <;> exact ⟨rfl, rfl⟩
  | load name =>
    rw [Session.step]
    split <;> exact ⟨rfl, rfl⟩
  | render template context =>
    simp only [Session.step]
    split <;> exact ⟨rfl, rfl⟩
  | registerHelper | removeHelper | hasHelper | clearHelpers | resetHelpers | hasPartial | listPartials
  | clearPartials | setData | describe => exact ⟨rfl, rfl⟩

theorem after_of_keepsCopies (session : Session φ) {between : List (Step φ)}
    (h : ∀ step ∈ between, step.keepsCopies = true) :
    (session.after between).templates = session.templates ∧ (session.after between).saved = session.saved := by
  induction between generalizing session with
  | nil => exact ⟨rfl, rfl⟩
  | cons step between ih =>
    obtain ⟨htemplates, hsaved⟩ := session.step_of_keepsCopies (h step (.head _))
    obtain ⟨hlast, hlast'⟩ := ih (session.step step).2 fun other hother => h other (.tail _ hother)
    exact ⟨hlast.trans htemplates, hlast'.trans hsaved⟩

/-- Rendering keeps what it compiles, but leaves the environment as it is. -/
theorem step_render_environment (session : Session φ) (template : String) (context : Except String (Value φ)) :
    (session.step (.render template context)).2.environment = session.environment := by
  simp only [Session.step]
  split <;> rfl

/-- A copy that is loaded does not show what was done with the session since. -/
theorem step_load_after (session : Session φ) {between : List (Step φ)}
    (h : ∀ step ∈ between, step.keepsCopies = true) {copy : String}
    {environment : Environment φ} (hfound : session.saved.find? copy = some environment) :
    ((session.after between).step (.load copy)).1 = (session.step (.load copy)).1 ∧
      ((session.after between).step (.load copy)).2.Alike (session.step (.load copy)).2 := by
  obtain ⟨htemplates, hsaved⟩ := session.after_of_keepsCopies h
  have hload : ∀ other : Session φ, other.saved = session.saved →
      other.step (.load copy) = (.done, { other with environment }) := by
    intro other hother
    rw [Session.step, hother, hfound]
  rw [hload _ hsaved, hload session rfl]
  refine ⟨rfl, htemplates, .refl environment, ?_⟩
  show Table.Rel Environment.Alike (session.after between).saved session.saved
  rw [hsaved]
  exact .refl Environment.Alike.refl session.saved

/-- **What is kept cannot be seen.** Take any session, whatever was registered, copied, compiled and
rendered in it before, with or without success. A slot that is filled holds what its text compiles
into, a text that does not parse fills no slot, and the compiled form of a partial is what its text
compiles into. Every template renders as if nothing were kept. To all further steps the session
gives the answers that it would give if its partials were registered anew and nothing were kept. And
a copy of the environment gives the answers that it would have given before, whatever was
registered, removed and rendered since it was taken. -/
theorem cache_unobservable (history : List (Step φ)) :
    let session : Session φ := after {} history
    (∀ registered, session.Registers registered → ∀ trackData,
      (∀ template, session.cache.lookup (registered.cell, trackData) = some template →
        Template.compile registered.text (SourcePartial.options trackData) = .ok template) ∧
      (∀ error, Template.compile registered.text (SourcePartial.options trackData) = .error error →
        session.cache.lookup (registered.cell, trackData) = none) ∧
      (session.cache.compile registered trackData).1 =
        Template.compile registered.text (SourcePartial.options trackData)) ∧
    (∀ template context, (session.render template context).1 =
      .rendered (template.renderRecording context session.environment).1
        (template.renderRecording context session.environment).2) ∧
    (∀ later, session.steps later = session.rebuilt.steps later) ∧
    ∀ between, (∀ step ∈ between, step.keepsCopies = true) →
      ∀ copy, session.saved.contains copy = true → ∀ later,
        (session.after between).steps (.load copy :: later) = session.steps (.load copy :: later) := by
  intro session
  obtain ⟨texts, hsound⟩ : ∃ texts, session.Sound texts := (Sound.start fun _ => "").after history
  refine ⟨?_, ?_, ?_, ?_⟩
  · intro registered hregisters trackData
    have hnumbered := hsound.numbered hregisters
    refine ⟨fun template => hsound.cache.compile_of_lookup hnumbered, fun error herror => ?_,
      (hsound.cache.compile hnumbered trackData).1⟩
    cases hlookup : session.cache.lookup (registered.cell, trackData) with
    | none => rfl
    | some template =>
      rw [hsound.cache.compile_of_lookup hnumbered hlookup] at herror
      cases herror
  · intro template context
    obtain ⟨after, -, hrender⟩ := hsound.render_eq (.refl _) template context
    rw [hrender]
  · intro later
    obtain ⟨halike, _, hrebuilt⟩ := hsound.rebuilt
    exact halike.steps_eq hsound hrebuilt later
  · intro between hbetween copy hcopy later
    obtain ⟨environment, hfound⟩ := Option.isSome_iff_exists.1 hcopy
    obtain ⟨hanswer, halike⟩ := session.step_load_after hbetween hfound
    obtain ⟨_, hafter⟩ := hsound.after between
    obtain ⟨_, hloaded⟩ := hafter.step (.load copy)
    obtain ⟨_, hloaded'⟩ := hsound.step (.load copy)
    rw [Session.steps, Session.steps, hanswer, halike.steps_eq hloaded hloaded']

/-- A partial that is rendered, one that does not parse, and a copy taken before the first is
replaced. -/
theorem cache_unobservable_replaced :
    let history : List (Step Empty) :=
      [.registerPartial "row" (.text "\x7b\x7bname\x7d\x7d"), .registerPartial "torn" (.text "\x7b\x7b"),
        .compile "page" "\x7b\x7b> row\x7d\x7d" {}, .save "copy", .render "page" (.ok .null)]
    (∃ template, (after {} history).cache.lookup (0, false) = some template ∧
      Template.compile "\x7b\x7bname\x7d\x7d" (SourcePartial.options false) = .ok template) ∧
    (after {} history).cache.lookup (1, false) = none ∧
    ∀ later, ((after {} history).after [.registerPartial "row" (.text "")]).steps (.load "copy" :: later) =
      (after {} history).steps (.load "copy" :: later) := by
  intro history
  have hpartials : (after {} history).environment.partials =
      [("row", .source ⟨"\x7b\x7bname\x7d\x7d", 0⟩), ("torn", .source ⟨"\x7b\x7b", 1⟩)] := by
    have hrender : after {} history = ((after {} history.dropLast).step (.render "page" (.ok .null))).2 := rfl
    rw [hrender, step_render_environment]
    rfl
  have hfilled : ((after {} history).cache.lookup (0, false)).isSome = true := by decide +kernel
  have hsaved : (after {} history).saved.contains "copy" = true := by decide +kernel
  have hrow : (after {} history).Registers ⟨"\x7b\x7bname\x7d\x7d", 0⟩ := by
    refine ⟨_, .inl rfl, "row", ?_⟩
    rw [hpartials]
    exact .head _
  have htorn : (after {} history).Registers ⟨"\x7b\x7b", 1⟩ := by
    refine ⟨_, .inl rfl, "torn", ?_⟩
    rw [hpartials]
    exact .tail _ (.head _)
  obtain ⟨hslots, -, -, hcopies⟩ := cache_unobservable history
  obtain ⟨template, hlookup⟩ := Option.isSome_iff_exists.1 hfilled
  refine ⟨⟨template, hlookup, (hslots _ hrow false).1 template hlookup⟩, (hslots _ htorn false).2.1 _ rfl, ?_⟩
  exact hcopies _ (List.forall_mem_singleton.2 rfl) "copy" hsaved

end Session

end Stencil
