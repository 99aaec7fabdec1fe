/-
Projections: which fields of an entity are loaded. The primary key always is, and the fields come in
their order of declaration.
-/
import GraphLoad.Entity

namespace GraphLoad

/-- A choice of fields. -/
inductive Projection
  | all
  | only (fields : List String)
  | except (fields : List String)
deriving DecidableEq

namespace Projection

/-- Whether every field is chosen. -/
def isAll : Projection → Bool
  | all => true
  | _ => false

/-- The fields that a projection names. -/
def listed : Projection → List String
  | all => []
  | only fields => fields
  | except fields => fields

/-- Whether a projection takes a field of an entity. -/
def takes (p : Projection) (e : Entity) (field : String) : Bool :=
  match p with
  | all => true
  | only fields => e.primaryKey.contains field || fields.contains field
  | except fields => e.primaryKey.contains field || !fields.contains field

/-- The fields of an entity that a projection chooses. Naming a field the entity lacks is an error.
-/
def resolve (p : Projection) (e : Entity) : Except LoadError (List String) :=
  match p.listed.find? fun field => !e.hasField field with
  | some field => .error (.unknownField e.name field)
  | none => .ok (e.fields.filter (p.takes e))

end Projection

end GraphLoad
