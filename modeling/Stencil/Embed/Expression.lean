import Stencil.Embed.Tree

/-!
# Expressions in declarations

The value of an option is an expression of the program around the declaration. It is only read as
far as it takes to know that it is one: operands, with marks in front of them, stand between
operators. The inside of round and square brackets is read in the same way. Parameters, patterns,
types, conditions, blocks and what a call by a bang holds are passed over up to the mark or the
braces that end them.
-/

namespace Stencil.Embed

def reservedWords : List String :=
  ["_", "abstract", "as", "async", "await", "become", "box", "break", "const", "continue", "do", "dyn",
    "else", "enum", "extern", "false", "final", "fn", "for", "if", "impl", "in", "let", "loop", "macro",
    "match", "mod", "move", "mut", "override", "priv", "pub", "ref", "return", "static", "struct",
    "trait", "true", "try", "type", "typeof", "unsafe", "unsized", "use", "virtual", "where", "while",
    "yield"]

def isOperatorMark (char : Char) : Bool :=
  char ∈ ['+', '-', '*', '/', '%', '^', '&', '|', '<', '>', '=', '!']

def isDoubled (char : Char) : Bool :=
  char ∈ ['&', '|', '<', '>', '=']

/-- How far the reading of an expression has come. -/
inductive Reading where
  /-- An operand has to follow -/
  | operand
  /-- An operand can follow, at the start of an item -/
  | start
  /-- An operand can follow a word or a range -/
  | optional
  /-- An operand or the name of a label can follow -/
  | jump
  | jumpLabel
  /-- A mark of reference has been read -/
  | reference
  /-- The brackets of an attribute have to follow -/
  | attribute
  /-- Braces have to follow -/
  | block
  /-- The braces of a block that is put off, or a closure, have to follow -/
  | deferred
  | closure
  /-- The parameters of a closure go on up to a bar -/
  | parameters
  | body
  /-- A minus has been read where the body of a closure can stand -/
  | arrow
  /-- A pattern goes on up to an equals sign -/
  | pattern
  /-- Something goes on up to braces, which can be the first branch of a choice -/
  | header ( isEmpty branches : Bool)
  | branch
  | otherwise
  /-- A quote in front of a label has been read -/
  | label
  | labelEnd
  | labelled
  /-- The operand so far is a name -/
  | named
  /-- The operand so far is a part of something -/
  | field
  | complete
  /-- The first mark of an operator has been read -/
  | operator (first : Char)
  /-- A shift has been read -/
  | shift
  /-- A bang after a name has been read -/
  | bang
  | dot
  /-- The first point of a range has been read -/
  | point
  | range
  | colon
  /-- A name has to follow -/
  | name
  /-- Some angle brackets are open, in a type or not -/
  | angles (depth : Nat) (inType : Bool)
  /-- A type has to follow -/
  | type
  | typeLabel
  | typeNamed
  | typeColon
  | typeName
deriving Repr, DecidableEq

namespace Reading

/-- Whether an expression can end here. -/
def isEnd : Reading → Bool
  | .optional => true
  | .jump => true
  | .range => true
  | .branch => true
  | .named => true
  | .field => true
  | .complete => true
  | .typeNamed => true
  | _ => false

def startWord? (word : String) : Option Reading :=
  if word = "if" then some (.header true true)
  else if word ∈ ["for", "match", "while"] then some (.header true false)
  else if word ∈ ["const", "loop", "try", "unsafe"] then some .block
  else if word = "async" then some .deferred
  else if word ∈ ["move", "static"] then some .closure
  else if word ∈ ["return", "yield"] then some .optional
  else if word ∈ ["break", "continue"] then some .jump
  else if word = "let" then some .pattern
  else if word ∈ ["_", "false", "true"] then some .complete
  else if word ∈ reservedWords then none
  else some .named

def startMark? : Char → Option Reading
  | ':' => some .colon
  | '<' => some (.angles 0 false)
  | '|' => some .parameters
  | '&' => some .reference
  | '!' => some .operand
  | '-' => some .operand
  | '*' => some .operand
  | '#' => some .attribute
  | '.' => some .point
  | '\'' => some .label
  | _ => none

def startOperand? : Tree → Option Reading
  | .leaf (.word word) => startWord? word
  | .leaf (.mark char) => startMark? char
  | .leaf (.remark follows) => if follows then some .operand else none
  | _ => some .complete

def afterOperand? : Tree → Option Reading
  | .leaf (.mark '.') => some .dot
  | .leaf (.mark '?') => some .complete
  | .leaf (.mark char) => if isOperatorMark char then some (.operator char) else none
  | .leaf (.word word) => if word = "as" then some .type else none
  | .group opener _ => if opener = '{' then none else some .complete
  | .leaf _ => none

def afterOperator? (first : Char) (tree : Tree) : Option Reading :=
  if tree.isMark '=' then some .operand
  else if first = '!' then none
  else if isDoubled first && tree.isMark first then
    some (if first = '<' || first = '>' then .shift else .operand)
  else startOperand? tree

def startType? : Tree → Option Reading
  | .leaf (.mark '&') => some .type
  | .leaf (.mark '*') => some .type
  | .leaf (.mark '\'') => some .typeLabel
  | .leaf (.mark '!') => some .complete
  | .leaf (.mark ':') => some .typeColon
  | .leaf (.mark '<') => some (.angles 0 true)
  | .leaf (.word word) =>
    if word ∈ ["const", "dyn", "impl", "mut"] then some .type
    else if word = "_" then some .complete
    else if word ∈ reservedWords then none
    else some .typeNamed
  | .group opener _ => if opener = '{' then none else some .complete
  | _ => none

/-- The reading after a name, or nothing if a tree is no name. -/
def nameThen? (reading : Reading) : Tree → Option Reading
  | .leaf (.word word) => if word ∈ reservedWords then none else some reading
  | _ => none

def blockThen? (reading : Reading) : Tree → Option Reading
  | .group '{' _ => some reading
  | _ => none

def markThen? (char : Char) (reading : Reading) (tree : Tree) : Option Reading :=
  if tree.isMark char then some reading else none

def next? (reading : Reading) (tree : Tree) : Option Reading :=
  match reading with
  | .operand => startOperand? tree
  | .start => startOperand? tree
  | .optional => startOperand? tree
  | .jump => if tree.isMark '\'' then some .jumpLabel else startOperand? tree
  | .jumpLabel => nameThen? .optional tree
  | .reference =>
    match tree with
    | .leaf (.word "mut") => some .operand
    | _ => startOperand? tree
  | .attribute =>
    match tree with
    | .group '[' _ => some .operand
    | _ => none
  | .block => blockThen? .complete tree
  | .deferred =>
    match tree with
    | .leaf (.word "move") => some .deferred
    | .leaf (.mark '|') => some .parameters
    | _ => blockThen? .complete tree
  | .closure =>
    match tree with
    | .leaf (.word "move") => some .closure
    | _ => markThen? '|' .parameters tree
  | .parameters => if tree.isMark '|' then some .body else some .parameters
  | .body => if tree.isMark '-' then some .arrow else startOperand? tree
  | .arrow => if tree.isMark '>' then some (.header false false) else startOperand? tree
  | .pattern => if tree.isMark '=' then some .operand else some .pattern
  | .header isEmpty branches =>
    match tree with
    | .group '{' _ =>
      if isEmpty then some (.header false branches)
      else some (if branches then .branch else .complete)
    | _ => some (.header false branches)
  | .branch =>
    match tree with
    | .leaf (.word "else") => some .otherwise
    | _ => afterOperand? tree
  | .otherwise =>
    match tree with
    | .leaf (.word "if") => some (.header true true)
    | _ => blockThen? .complete tree
  | .label => nameThen? .labelEnd tree
  | .labelEnd => markThen? ':' .labelled tree
  | .labelled =>
    match tree with
    | .leaf (.word "loop") => some .block
    | .leaf (.word "for") => some (.header true false)
    | .leaf (.word "while") => some (.header true false)
    | _ => blockThen? .complete tree
  | .named =>
    match tree with
    | .leaf (.mark '!') => some .bang
    | .leaf (.mark ':') => some .colon
    | .group '{' _ => some .complete
    | _ => afterOperand? tree
  | .field => if tree.isMark ':' then some .colon else afterOperand? tree
  | .complete => afterOperand? tree
  | .operator first => afterOperator? first tree
  | .shift => if tree.isMark '=' then some .operand else startOperand? tree
  | .bang =>
    match tree with
    | .group _ _ => some .complete
    | _ => markThen? '=' .operand tree
  | .dot =>
    match tree with
    | .leaf (.word "await") => some .complete
    | .leaf (.word _) => nameThen? .field tree
    | .leaf .literal => some .complete
    | _ => markThen? '.' .range tree
  | .point => markThen? '.' .range tree
  | .range => if tree.isMark '=' then some .operand else startOperand? tree
  | .colon => markThen? ':' .name tree
  | .name => if tree.isMark '<' then some (.angles 0 false) else nameThen? .named tree
  | .angles depth inType =>
    if tree.isMark '<' then some (.angles (depth + 1) inType)
    else if tree.isMark '>' then
      match depth with
      | 0 => some (if inType then .typeNamed else .named)
      | depth + 1 => some (.angles depth inType)
    else some reading
  | .type => startType? tree
  | .typeLabel => nameThen? .type tree
  | .typeNamed =>
    match tree with
    | .leaf (.mark '<') => some (.angles 0 true)
    | .leaf (.mark ':') => some .typeColon
    | _ => afterOperand? tree
  | .typeColon => markThen? ':' .typeName tree
  | .typeName => if tree.isMark '<' then some (.angles 0 true) else nameThen? .typeNamed tree

/-- Whether a group that is read next is passed over. -/
def passesOver : Reading → Bool
  | .attribute => true
  | .parameters => true
  | .pattern => true
  | .header _ _ => true
  | .bang => true
  | .angles _ _ => true
  | .type => true
  | .typeNamed => true
  | _ => false

/-- Whether a group that is read next belongs to the operand in front of it. -/
def hasOperand : Reading → Bool
  | .branch => true
  | .named => true
  | .field => true
  | .complete => true
  | _ => false

end Reading

inductive Row where
  /-- Expressions with commas between them -/
  | items
  /-- As before, or an expression and a count behind a semicolon -/
  | array
  /-- One expression -/
  | single
deriving Repr, DecidableEq

mutual

/-- Whether the inside of a tree that is read next is in order. -/
def Tree.isSound (reading : Reading) : Tree → Bool
  | .leaf _ => true
  | .group '(' trees => readRow .items .start trees
  | .group '[' trees =>
    if reading.hasOperand then readRow .single .operand trees else readRow .array .start trees
  | .group _ _ => true

/-- Whether reading can go on with the trees of a row, up to a place where it can end. -/
def readRow (row : Row) (reading : Reading) : List Tree → Bool
  | [] => reading.isEnd || (row != .single && reading == .start)
  | tree :: rest =>
    if row != .single && reading.isEnd && tree.isMark ',' then readRow .items .start rest
    else if row == .array && reading.isEnd && tree.isMark ';' then readRow .single .operand rest
    else
      (reading.passesOver || tree.isSound reading) &&
        match reading.next? tree with
        | some reading => readRow row reading rest
        | none => false

end

/-- The expression that some trees start with, up to a comma or to the end. -/
def expression? (reading : Reading) : List Tree → Option (List Tree)
  | [] => if reading.isEnd then some [] else none
  | tree :: rest =>
    if reading.isEnd && tree.isMark ',' then some []
    else if reading.passesOver || tree.isSound reading then do
      return tree :: (← expression? (← reading.next? tree) rest)
    else none

/-- The trees of an expression without the attributes in front of it. -/
def withoutAttributes : List Tree → List Tree
  | .leaf (.remark true) :: rest => withoutAttributes rest
  | .leaf (.mark '#') :: .group '[' _ :: rest => withoutAttributes rest
  | trees => trees

end Stencil.Embed
