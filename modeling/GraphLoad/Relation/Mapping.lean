/-
How the rows of two entities are matched: field pairs as they are declared, directly or through a
pivot, and the join mapping they become, grouped by the entity that is joined.
-/
import GraphLoad.OrderedMap
import GraphLoad.Relation.Kind

namespace GraphLoad

/-- Field pairs as declared. -/
inductive FieldPairs
  | direct (pairs : List (String × String))
  | throughPivot (pivot : String) (source target : List (String × String))
deriving DecidableEq

/-- What may be declared of a relationship; the naming convention supplies the rest. -/
structure RelationDefinition where
  name : String
  target : Option String := none
  kind : Option RelationKind := none
  property : Option String := none
  reverse : Option String := none
  mapping : Option FieldPairs := none
deriving DecidableEq

/-- The equalities of a relationship: for each joined entity, in the order of the joins, for each
entity it is joined to, the target field that each source field equals. -/
structure JoinMapping where
  groups : OrderedMap String (OrderedMap String (OrderedMap String String)) := .empty
deriving DecidableEq

namespace JoinMapping

/-- Adds the equality of a source field and a target field; a source field has one partner in its
group. -/
def bind (m : JoinMapping) (target source sourceField targetField : String) : JoinMapping :=
  let group := (m.groups.get? target).getD .empty
  let pairs := (group.get? source).getD .empty
  ⟨m.groups.insert target (group.insert source (pairs.insert sourceField targetField))⟩

/-- How many tables are joined. -/
def joinCount (m : JoinMapping) : Nat := m.groups.size

/-- Whether nothing is joined. -/
def isEmpty (m : JoinMapping) : Bool := m.groups.isEmpty

end JoinMapping

end GraphLoad
