import Stencil.Render.Cache
import Stencil.Text.Shown

/-!
# Sessions

A session holds named templates, an environment, copies of the environment under names, and the
partials compiled so far. It is worked with step by step, and each step has an answer. A step that
is refused changes nothing.
-/

namespace Stencil

structure Session (φ : Type) where
  templates : Table Template := []
  environment : Environment φ := {}
  saved : Table (Environment φ) := []
  cache : Cache := []
  /-- The number of the next partial that is registered as a text -/
  nextCell : Nat := 0

inductive PartialSource (φ : Type) where
  | text (text : String)
  | compiled (template : Template)
  | function (render : Value φ → Except RenderError String)

inductive Step (φ : Type) where
  | compile (name source : String) (options : CompileOptions)
  | registerHelper (name : String) (helper : Helper φ)
  /-- Registers the helper of one name also under another -/
  | aliasHelper (name existing : String)
  | removeHelper (name : String)
  | hasHelper (name : String)
  | clearHelpers
  | resetHelpers
  | registerPartial (name : String) (source : PartialSource φ)
  /-- Registers a template of the session as a partial -/
  | registerTemplate (name template : String)
  | hasPartial (name : String)
  | listPartials
  | clearPartials
  | compilePartial (name : String) (trackData : Bool)
  | setData (data : Option (Table (Value φ)))
  | save (name : String)
  | load (name : String)
  | describe
  /-- Renders a template with a context, which may have failed to become a value -/
  | render (template : String) (context : Except String (Value φ))

inductive Refusal where
  | noTemplate
  | nothingSaved
deriving Repr, DecidableEq

def Refusal.message : Refusal → String
  | .noTemplate => "no template"
  | .nothingSaved => "nothing saved"

/-- What a partial turns out to be when its compiled form is asked for. -/
inductive PartialForm where
  | missing
  | function
  | template (options : CompileOptions)

inductive Answer (φ : Type) where
  | done
  | aliased (found : Bool)
  | removed (found : Bool)
  | present (found : Bool)
  | names (names : List String)
  | form (form : PartialForm)
  | data (data : Option (Table (Value φ)))
  /-- The registries described, and each partial that can be described -/
  | description (helpers partials : String) (entries : List (Option String))
  | rendered (outcome : Outcome String) (events : List (Event φ))
  | refused (refusal : Refusal)
  | unparsable (error : ParseError)

variable {φ : Type}

namespace Environment

def describeHelpers (environment : Environment φ) : String :=
  "HelperRegistry \x7b helpers: " ++ showList (environment.helpers.names.map showText) ++ " \x7d"

def describePartials (environment : Environment φ) : String :=
  "PartialRegistry \x7b partials: " ++ showList (environment.partials.names.map showText) ++ " \x7d"

end Environment

/-- The description of a partial. Compiled templates have none. -/
def Partial.describe? : Partial φ → Option String
  | .source registered => some ("Source(" ++ showText registered.text ++ ")")
  | .function _ => some "Function"
  | .compiled _ => none

namespace Session

def withHelpers (session : Session φ) (helpers : Table (Helper φ)) : Session φ :=
  { session with environment := { session.environment with helpers } }

def withPartials (session : Session φ) (partials : Table (Partial φ)) : Session φ :=
  { session with environment := { session.environment with partials } }

def addPartial (session : Session φ) (name : String) (included : Partial φ) : Session φ :=
  session.withPartials (session.environment.partials.insert name included)

def compilePartial (session : Session φ) (name : String) (trackData : Bool) : Answer φ × Session φ :=
  match session.environment.partials.find? name with
  | none => (.form .missing, session)
  | some (.function _) => (.form .function, session)
  | some (.compiled template) => (.form (.template template.options), session)
  | some (.source source) =>
    match session.cache.compile source trackData with
    | (.ok template, cache) => (.form (.template template.options), { session with cache })
    | (.error error, cache) => (.unparsable error, { session with cache })

def render [Callable φ] (session : Session φ) (template : Template) (context : Value φ) :
    Answer φ × Session φ :=
  let (outcome, cache, events) :=
    template.run .caching session.environment Template.nestingLimit context session.environment.data
      (session.cache, [])
  (.rendered outcome events, { session with cache })

def step [Callable φ] (session : Session φ) : Step φ → Answer φ × Session φ
  | .compile name source options =>
    match Template.compile source options with
    | .ok template => (.done, { session with templates := session.templates.insert name template })
    | .error error => (.unparsable error, session)
  | .registerHelper name helper =>
    (.done, session.withHelpers (session.environment.helpers.insert name helper))
  | .aliasHelper name existing =>
    match session.environment.helpers.find? existing with
    | some helper =>
      (.aliased true, session.withHelpers (session.environment.helpers.insert name helper))
    | none => (.aliased false, session)
  | .removeHelper name =>
    (.removed (session.environment.helpers.contains name),
      session.withHelpers (session.environment.helpers.erase name))
  | .hasHelper name => (.present (session.environment.helpers.contains name), session)
  | .clearHelpers => (.done, session.withHelpers [])
  | .resetHelpers => (.done, session.withHelpers Helper.builtins)
  | .registerPartial name (.text text) =>
    (.done, { session.addPartial name (.source ⟨text, session.nextCell⟩) with
      nextCell := session.nextCell + 1 })
  | .registerPartial name (.compiled template) => (.done, session.addPartial name (.compiled template))
  | .registerPartial name (.function render) => (.done, session.addPartial name (.function render))
  | .registerTemplate name template =>
    match session.templates.find? template with
    | some template => (.done, session.addPartial name (.compiled template))
    | none => (.refused .noTemplate, session)
  | .hasPartial name => (.present (session.environment.partials.contains name), session)
  | .listPartials => (.names session.environment.partials.names, session)
  | .clearPartials => (.done, session.withPartials [])
  | .compilePartial name trackData => session.compilePartial name trackData
  | .setData data => (.data data, { session with environment := { session.environment with data } })
  | .save name => (.done, { session with saved := session.saved.insert name session.environment })
  | .load name =>
    match session.saved.find? name with
    | some environment => (.done, { session with environment })
    | none => (.refused .nothingSaved, session)
  | .describe =>
    (.description session.environment.describeHelpers session.environment.describePartials
      (session.environment.partials.map fun entry => entry.2.describe?), session)
  | .render template context =>
    match session.templates.find? template, context with
    | none, _ => (.refused .noTemplate, session)
    | some _, .error reason => (.rendered (.failed (.unconvertible reason)) [], session)
    | some template, .ok context => session.render template context

def steps [Callable φ] (session : Session φ) : List (Step φ) → List (Answer φ)
  | [] => []
  | next :: rest => (session.step next).1 :: (session.step next).2.steps rest

end Session

end Stencil
