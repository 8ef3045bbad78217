import Stencil.Markup.Document
import Stencil.Template.Op

/-!
# Compiling

Compiling turns nodes into operations one by one. Comments disappear, and the text on the two sides
of one becomes a single piece.
-/

namespace Stencil

namespace CompileOptions

variable (options : CompileOptions)

def resolution (path : Path) (hasArguments : Bool) : Resolution :=
  if !path.isSimple then .property
  else
    let known := options.isKnown (path.segments.headD "")
    if options.knownHelpersOnly && !known then .property
    else if hasArguments then .helper
    else if known then .known
    else .ambiguous

def valueParam : Expr → Param
  | .literal literal => .literal literal
  | .path path => .path path

/-- A parameter, which is passed as its text if the options say so. -/
def param : Expr → Param
  | .path path => if options.stringParams then .source path.dotted path.depth else .path path
  | .literal literal => .literal literal

def invocable (path : Path) (call : Call) : Invocable where
  name := path.text
  path := path
  resolution := options.resolution path call.hasArguments
  params := call.params.map options.param
  hash := call.hash.map fun entry => (entry.1, valueParam entry.2)

end CompileOptions

/-- Puts an operation in front of others, where text joins text. -/
def Op.prepend : Op → List Op → List Op
  | .content text, .content next :: rest => .content (text ++ next) :: rest
  | op, rest => op :: rest

mutual

/-- The operation of a node. Comments have none. -/
def Node.compile (options : CompileOptions) : Node → Option Op
  | .content text => some (.content text)
  | .comment _ => none
  | .mustache call escaped =>
    match call.head with
    | .literal literal => some (.literal literal escaped)
    | .path path => some (.expression (options.invocable path call) escaped)
  | .block call program none =>
    match call.head with
    | .literal _ => none
    | .path path => some (.block (options.invocable path call) (compileNodes options program) none)
  | .block call program (some inverse) =>
    match call.head with
    | .literal _ => none
    | .path path =>
      some (.block (options.invocable path call) (compileNodes options program)
        (some (compileNodes options inverse)))
  | .inclusion name context => some (.inclusion name (context.map CompileOptions.valueParam))

def compileNodes (options : CompileOptions) : List Node → List Op
  | [] => []
  | node :: rest =>
    match node.compile options with
    | some op => op.prepend (compileNodes options rest)
    | none => compileNodes options rest

end

def Template.compile (source : String) (options : CompileOptions) : Except ParseError Template := do
  let nodes ← parse source
  return ⟨compileNodes options nodes, options⟩

end Stencil
