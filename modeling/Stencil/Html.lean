/-!
# Text in HTML

Six characters mean something in HTML text or in a quoted attribute. Escaping writes each of them as
an entity and leaves the rest alone.
-/

namespace Stencil.Html

/-- The entity written for a character, if it is one of the six. -/
def entity? : Char → Option (List Char)
  | '&' => some ['&', 'a', 'm', 'p', ';']
  | '<' => some ['&', 'l', 't', ';']
  | '>' => some ['&', 'g', 't', ';']
  | '"' => some ['&', 'q', 'u', 'o', 't', ';']
  | '\'' => some ['&', '#', 'x', '2', '7', ';']
  | '`' => some ['&', '#', 'x', '6', '0', ';']
  | _ => none

def escapeChar (char : Char) : List Char :=
  (entity? char).getD [char]

def escape (text : String) : String :=
  String.ofList (text.toList.flatMap escapeChar)

end Stencil.Html
