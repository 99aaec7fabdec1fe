/-
The tree of a JSON text before it is given a meaning: members stand in the order and number they are
written, numerals and strings are kept as written. Built from the tokens with the open arrays and
objects on a stack, so that texts may nest to any depth.
-/
import GraphLoad.Json.Token

namespace GraphLoad.Json

/-- A JSON text as a tree. -/
inductive Document
  | null
  | bool (b : Bool)
  | number (n : Numeral)
  | string (pieces : List Piece)
  | array (items : List Document)
  | object (members : List (List Piece × Document))

namespace Document

/-- An array or object that is still open, with what it holds so far, last first. An object holds
the key whose value is being read. -/
inductive Frame
  | array (done : List Document)
  | object (done : List (List Piece × Document)) (key : List Piece)

/-- What may come next. -/
inductive Expect
  | value
  | firstItem
  | firstKey (done : List (List Piece × Document))
  | key (done : List (List Piece × Document))
  | colon
  | afterItem
  | afterMember (done : List (List Piece × Document))
  | nothing (document : Document)

/-- A text read in part: the open arrays and objects, innermost first, and what may come next. -/
structure Reading where
  stack : List Frame
  expect : Expect

/-- The reading before the first token. -/
def Reading.start : Reading := ⟨[], .value⟩

/-- The reading after a value has been completed inside the open frames. -/
def Reading.complete (document : Document) : List Frame → Reading
  | [] => ⟨[], .nothing document⟩
  | .array done :: stack => ⟨.array (document :: done) :: stack, .afterItem⟩
  | .object done key :: stack => ⟨stack, .afterMember ((key, document) :: done)⟩

/-- The reading after a token that starts a value. -/
def Reading.value (stack : List Frame) : Token → Option Reading
  | .null => some (.complete .null stack)
  | .bool b => some (.complete (.bool b) stack)
  | .number n => some (.complete (.number n) stack)
  | .string pieces => some (.complete (.string pieces) stack)
  | .openArray => some ⟨.array [] :: stack, .firstItem⟩
  | .openObject => some ⟨stack, .firstKey []⟩
  | _ => none

/-- The reading after one more token, if the token may stand there. -/
def Reading.step (r : Reading) (t : Token) : Option Reading :=
  match r.expect, t, r.stack with
  | .value, t, stack => Reading.value stack t
  | .firstItem, .closeArray, .array done :: stack => some (.complete (.array done.reverse) stack)
  | .firstItem, t, stack => Reading.value stack t
  | .firstKey done, .closeObject, stack => some (.complete (.object done.reverse) stack)
  | .firstKey done, .string key, stack => some ⟨.object done key :: stack, .colon⟩
  | .key done, .string key, stack => some ⟨.object done key :: stack, .colon⟩
  | .colon, .colon, stack => some ⟨stack, .value⟩
  | .afterItem, .comma, stack => some ⟨stack, .value⟩
  | .afterItem, .closeArray, .array done :: stack => some (.complete (.array done.reverse) stack)
  | .afterMember done, .comma, stack => some ⟨stack, .key done⟩
  | .afterMember done, .closeObject, stack => some (.complete (.object done.reverse) stack)
  | _, _, _ => none

/-- The tree of a text that is one JSON value. -/
def ofText? (s : String) : Option Document :=
  match (Token.lex s.toList).bind (·.foldlM Reading.step Reading.start) with
  | some ⟨[], .nothing document⟩ => some document
  | _ => none

mutual

/-- How deeply arrays and objects are nested. -/
def depth : Document → Nat
  | .array items => depthItems items + 1
  | .object members => depthMembers members + 1
  | _ => 0

/-- The greatest depth of a list of trees. -/
def depthItems : List Document → Nat
  | [] => 0
  | item :: rest => max (depth item) (depthItems rest)

/-- The greatest depth of the values of a list of members. -/
def depthMembers : List (List Piece × Document) → Nat
  | [] => 0
  | (_, value) :: rest => max (depth value) (depthMembers rest)

end

end Document

end GraphLoad.Json
