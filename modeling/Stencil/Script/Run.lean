import Stencil.Script.Basic
import Stencil.Value.Shown
import Stencil.Value.Text

/-!
# Running scripts

A script runs in the place of a tag, where it sees what the tag passes, or on its own as a partial,
where it sees the context and nothing else. The parts of an expression run from left to right, but
for the name of a member, which runs before the value that has the member. A part that fails makes
the whole fail, unless the whole is an attempt.
-/

namespace Stencil

def Invocation.describe {φ : Type} (invocation : Invocation φ) : String :=
  "Invocation \x7b name: " ++ showText invocation.name ++
    ", hash: " ++ showTable (Value.describeMembers invocation.hash) ++
    ", contexts: " ++ showList (Value.describeItems invocation.contexts) ++
    ", this: " ++ invocation.current.describe ++
    ", block: " ++ (if invocation.isBlock then "true" else "false") ++ " \x7d"

namespace Script

structure Place where
  invocation : Invocation Closure
  /-- Whether there is a tag, or the script runs on its own -/
  inTag : Bool := true
  item : Value Closure := .null

abbrev Step := Action Closure (Value Closure)

def forEach (step : Value Closure → Step) : List (Value Closure) → Action Closure (List (Value Closure))
  | [] => pure []
  | value :: values => do
    let result ← step value
    return result :: (← forEach step values)

def textOf (values : List (Value Closure)) : String :=
  String.join (values.map Value.render)

def itemsOf (value : Value Closure) : List (Value Closure) :=
  value.asArray?.getD []

mutual

def run (place : Place) : Script → Step
  | .constant value => pure value
  | .param index => pure (place.invocation.params[index]?.getD .null)
  | .params => pure (.array place.invocation.params)
  | .paramCount => pure (.number (.integer place.invocation.params.length))
  | .argument name => pure ((place.invocation.hash.find? name).getD .null)
  | .arguments => pure (.object place.invocation.hash)
  | .contexts => pure (.array place.invocation.contexts)
  | .current => pure place.invocation.current
  | .tagName => pure (.string place.invocation.name)
  | .data name => pure ((place.invocation.data.bind (Table.find? name)).getD .null)
  | .frame => pure ((place.invocation.data.map .object).getD .null)
  | .isBlock => pure (.boolean place.invocation.isBlock)
  | .hasInverse => pure (.boolean place.invocation.hasInverse)
  | .item => pure place.item
  | .get value name => do
    let name ← run place name
    return ((← run place value).get? name.render).getD .null
  | .concat parts => return .string (textOf (← runAll place parts))
  | .list items => return .array (← runAll place items)
  | .object members => return .object (Table.ofPairs (← runMembers place members))
  | .safe text => return .safe (← run place text).render
  | .escape text => return .string (Html.escape (← run place text).render)
  | .escapeValue value => return .string (← run place value).escaped
  | .truthy value => return .boolean (← run place value).isTruthy
  | .choose condition yes no => do
    let condition ← run place condition
    if condition.isTruthy then run place yes else run place no
  | .map items each => do
    let items ← run place items
    return .array (← forEach (fun value => run { place with item := value } each) (itemsOf items))
  | .join items => return .string (textOf (itemsOf (← run place items)))
  | .body inverse none none => .string <$> Action.render { inverse }
  | .body inverse (some context) none => do
    let context ← run place context
    .string <$> Action.render { inverse, context := some context }
  | .body inverse none (some members) => do
    let members ← run place members
    .string <$> Action.render { inverse, data := members.asObject? }
  | .body inverse (some context) (some members) => do
    let context ← run place context
    let members ← run place members
    .string <$> Action.render { inverse, context := some context, data := members.asObject? }
  | .call builtin values => do
    let values ← runAll place values
    if place.inTag then builtin.run { place.invocation with params := values } else return .null
  | .fail message => do
    let message ← run place message
    .fail (.helperFailed place.invocation.name message.render)
  | .attempt first second =>
    (run place first).recover fun error =>
      run { place with item := .string error.message } second
  | .describe =>
    pure (if place.inTag then .string place.invocation.describe else .null)

def runAll (place : Place) : List Script → Action Closure (List (Value Closure))
  | [] => pure []
  | script :: scripts => do
    let value ← run place script
    return value :: (← runAll place scripts)

def runMembers (place : Place) : List (String × Script) → Action Closure (List (String × Value Closure))
  | [] => pure []
  | (name, script) :: members => do
    let value ← run place script
    return (name, value) :: (← runMembers place members)

end

def toHelper (script : Script) : Helper Closure :=
  .custom fun invocation => script.run { invocation }

def renderAlone (script : Script) (context : Value Closure) : Except RenderError String :=
  (script.run
    { invocation :=
        { name := "partial", params := [], hash := [], contexts := [], current := context,
          data := none, isBlock := false, hasInverse := false },
      inTag := false }).alone.map Value.render

end Script

instance : Callable Closure where
  call closure invocation := closure.script.run { invocation }

end Stencil
