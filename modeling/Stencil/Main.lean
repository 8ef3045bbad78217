import Stencil.Demo.Page

/-!
# The demonstration

Prints the page with two things to do.
-/

open Stencil

def main : IO UInt32 := do
  let page : Demo.Page :=
    { owner := "King Tubby"
      todos :=
        [{ id := 42, title := "My Todo", url := "/todos/42", done := false },
          { id := 43, title := "Dub <plates>", url := "/todos/43?sort=a&b", done := true }] }
  match page.render with
  | .done text =>
    IO.println text
    return 0
  | .failed error =>
    IO.eprintln ("failed to render page: " ++ error.message)
    return 1
  | .exhausted =>
    IO.eprintln "failed to render page: partials are nested too deeply"
    return 1
