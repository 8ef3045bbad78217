import Stencil.Text.Bytes

/-!
# Why a template does not parse

A parse error has a cause, the place where it was found and an excerpt of the template around that
place. While a template is read only the cause and the place are known, which is a fault; the
excerpt is added when the whole template is at hand.
-/

namespace Stencil

inductive Cause where
  | unterminatedTag
  | blockMismatch (opened closed : String)
  | unclosedBlock (name : String)
  | unexpectedClose (name : String)
  | misplacedInverse
  | malformedLiteral
  | invalidPath (path : String)
  | unexpectedToken (token : String)
  | emptyTag
deriving Repr, DecidableEq

def Cause.detail : Cause → String
  | .unterminatedTag => "unterminated tag"
  | .blockMismatch opened closed => "block `" ++ opened ++ "` closed by `" ++ closed ++ "`"
  | .unclosedBlock name => "unclosed block `" ++ name ++ "`"
  | .unexpectedClose name => "unexpected close `" ++ name ++ "`"
  | .misplacedInverse => "inverse marker not expected here"
  | .malformedLiteral => "malformed literal"
  | .invalidPath path => "invalid path `" ++ path ++ "`"
  | .unexpectedToken token => "unexpected `" ++ token ++ "`"
  | .emptyTag => "empty tag"

structure Fault where
  cause : Cause
  place : Nat
deriving Repr, DecidableEq

structure ParseError where
  cause : Cause
  offset : Nat
  near : String
deriving Repr, DecidableEq

/-- Up to sixteen bytes on either side of a place, and the rest of the characters at the ends. -/
def excerptAround (place : Nat) (source : List Char) : List Char :=
  window (place - 16) (min (place + 16) (byteSize source)) 0 source

/-- The last thirty-two bytes of what stands before the end of the thirty-two bytes that follow a
place, and the rest of the characters at both ends. -/
def excerptAfter (place : Nat) (source : List Char) : List Char :=
  let read := window 0 (place + 32) 0 source
  if byteSize read ≤ 32 then read else window (byteSize read - 32) (byteSize read) 0 read

/-- The error for a fault in a template. A tag without an end is shown from its start on, other
faults in the middle of their surroundings. -/
def Fault.inSource (source : List Char) (fault : Fault) : ParseError where
  cause := fault.cause
  offset := fault.place
  near := String.ofList <| match fault.cause with
    | .unterminatedTag => excerptAfter fault.place source
    | _ => excerptAround fault.place source

namespace ParseError

def detail (error : ParseError) : String :=
  error.cause.detail

def message (error : ParseError) : String :=
  error.detail ++ " near \"" ++ error.near ++ "\""

end ParseError

end Stencil
