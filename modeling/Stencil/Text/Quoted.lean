/-!
# Quoted strings

A quoted string stands between double quotes. Inside it a backslash guards the character after it,
so that a guarded quote does not end the string; a guarded backslash guards nothing. The backslashes
stay in the content.
-/

namespace Stencil

/-- The content of a quoted string, read from the character after its opening quote, or nothing if
no quote closes it. The flag says whether the next character is guarded. -/
def quotedContent : Bool → List Char → Option (List Char)
  | _, [] => none
  | guarded, char :: rest =>
    if char = '\\' then (quotedContent (!guarded) rest).map (char :: ·)
    else if char = '"' ∧ guarded = false then some []
    else (quotedContent false rest).map (char :: ·)

/-- The string that a quoted content denotes: a backslash before a quote is dropped, any other
stays. -/
def unquote : List Char → List Char
  | [] => []
  | [char] => [char]
  | char :: next :: rest =>
    if char = '\\' ∧ next = '"' then '"' :: unquote rest else char :: unquote (next :: rest)

end Stencil
