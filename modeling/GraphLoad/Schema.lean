/-
Schemas: the entities, the relationship definitions and the relationships resolved so far. A
relationship is made when it is first asked for and stays the same from then on; what fails to
resolve leaves no trace.
-/
import GraphLoad.Relation

namespace GraphLoad

/-- A schema. Definitions and resolved relationships are kept under the names of their entity and of
the relationship. -/
structure Schema where
  catalog : Catalog
  definitions : OrderedMap (String × String) RelationDefinition := .empty
  resolved : OrderedMap (String × String) Relation := .empty

/-- Steps that resolve relationships of a schema and may fail. -/
abbrev Resolving := EStateM LoadError Schema

namespace Schema

/-- Records a definition without looking for its entity. -/
def define (s : Schema) (entity : String) (definition : RelationDefinition) : Schema :=
  { s with definitions := s.definitions.insert (entity, definition.name) definition }

/-- The schema of entities and definitions, each in order. -/
def ofLists (entities : List Entity) (definitions : List (String × RelationDefinition)) : Schema :=
  definitions.foldl (fun s d => s.define d.1 d.2) { catalog := .ofList entities }

/-- The entity of a name. -/
def entity (s : Schema) (name : String) : Except LoadError Entity := s.catalog.entity name

/-- The relationship of a name on an entity as it would be made now. -/
def build (s : Schema) (entity name : String) : Except LoadError Relation :=
  Relation.build s.catalog entity name (s.definitions.get? (entity, name))

/-- The relationship of a name on an entity. -/
def relation (entity name : String) : Resolving Relation := do
  let s ← get
  match s.resolved.get? (entity, name) with
  | some r => return r
  | none =>
    let r ← lift (s.build entity name)
    set { s with resolved := s.resolved.insert (entity, name) r }
    return r

/-- The way back of a relationship. -/
def reverse (r : Relation) : Resolving Relation := relation r.target.name r.reverseName

/-- Registers a definition on a known entity, unless its relationship is resolved already. -/
def register (entity : String) (definition : RelationDefinition) : Resolving Unit := do
  let s ← get
  let _ ← lift (s.entity entity)
  if s.resolved.contains (entity, definition.name) then
    throw (.invalidMapping entity definition.name "relationship already resolved")
  set (s.define entity definition)

end Schema

end GraphLoad
