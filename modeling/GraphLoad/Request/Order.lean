/-
Orderings of a loaded set by its fields, and how they are read from text: terms between commas, each
a field name and perhaps a direction.
-/
import GraphLoad.Sql.Clause

namespace GraphLoad

open Sql

/-- A term of an ordering. -/
structure OrderTerm where
  field : String
  direction : Direction
deriving DecidableEq

namespace OrderTerm

/-- Letters and the underscore, which names start with. -/
def isStart (c : Char) : Bool := c.isAlpha || c == '_'

/-- Letters, digits and the underscore, which names go on with. -/
def isFollower (c : Char) : Bool := c.isAlphanum || c == '_'

/-- Whether a text is an ASCII name. -/
def isIdentifier (s : String) : Bool :=
  match s.toList with
  | [] => false
  | c :: cs => isStart c && cs.all isFollower

/-- The direction of an ordering clause, if it names one. -/
def direction? (s : String) : Option Direction := (Direction.parse s).toOption

/-- The term that a text writes. -/
def parse (clause : String) : Except LoadError OrderTerm :=
  let malformed := .error (.invalidOrderBy clause)
  match Text.words clause with
  | [field] => if isIdentifier field then .ok ⟨field, .ascending⟩ else malformed
  | [field, word] =>
    match isIdentifier field, direction? word with
    | true, some direction => .ok ⟨field, direction⟩
    | _, _ => malformed
  | _ => malformed

/-- The terms of a list of texts; the first malformed one is the error. -/
def parseAll : List String → Except LoadError (List OrderTerm)
  | [] => .ok []
  | clause :: rest => do
    let term ← parse clause
    let others ← parseAll rest
    return term :: others

/-- The terms that a text writes between commas. -/
def parseList (clause : String) : Except LoadError (List OrderTerm) :=
  parseAll (Text.pieces ',' clause)

/-- The text of a term. -/
def text (t : OrderTerm) : String := t.field ++ " " ++ t.direction.keyword

end OrderTerm

end GraphLoad
