/-
Relationships between two entities with everything settled: kind, property, the name of the way
back, the pivot and the join mapping. They are made from a definition, or by convention from a name
alone.
-/
import GraphLoad.Entity.Catalog
import GraphLoad.Entity.Selection
import GraphLoad.Relation.Mapping

namespace GraphLoad

open Sql

/-- A relationship. `property` is where the source objects keep its targets; `reverseName` names the
way back, which was declared if `reverseDeclared`. -/
structure Relation where
  source : Entity
  name : String
  target : Entity
  kind : RelationKind
  property : String
  reverseName : String
  reverseDeclared : Bool
  pivot : Option Entity
  mapping : JoinMapping
deriving DecidableEq

namespace Relation

/-- Whether the property holds a collection. -/
def isMany (r : Relation) : Bool := r.kind.isMany

/-- The cardinality of the target. -/
def cardinality (r : Relation) : Cardinality := r.kind.cardinality

/-! ## Foreign keys -/

/-- The field by which an entity refers to a key field of another where nothing is declared. -/
def conventionalKey (referenced : Entity) (keyField : String) : String :=
  Text.lower referenced.name ++ "_" ++ keyField

/-- The pairs of the conventional foreign key from `owner` to `referenced`. -/
def conventionalPairs (owner referenced : Entity) (source name : String) :
    List String → Except LoadError (List (String × String))
  | [] => .ok []
  | keyField :: rest => do
    let field := conventionalKey referenced keyField
    if owner.hasField field then
      let others ← conventionalPairs owner referenced source name rest
      return (field, keyField) :: others
    else
      .error (.invalidMapping source name (owner.name ++ " has no foreign key to " ++
        referenced.name ++ " (expected field " ++ field ++ ")"))

/-- The pairs of own field and referenced field from `owner` to `referenced`: those declared, else
those of the convention. -/
def foreignKey (owner referenced : Entity) (source name : String) :
    Except LoadError (List (String × String)) :=
  match owner.foreignKeyTo? referenced.name with
  | some declared => .ok declared.entries
  | none => conventionalPairs owner referenced source name referenced.primaryKey

/-- The pivot of two entities by convention, named after both with a `2` between. -/
def conventionalPivot (catalog : Catalog) (source target : Entity) (name : String) :
    Except LoadError Entity :=
  let forward := source.name ++ "2" ++ target.name
  let backward := target.name ++ "2" ++ source.name
  match (catalog.find? forward).or (catalog.find? backward) with
  | some pivot => .ok pivot
  | none =>
    .error (.invalidMapping source.name name
      ("no pivot entity " ++ forward ++ " or " ++ backward))

/-- The field pairs of a relationship by convention. The foreign key stands on the source of a
many-to-one relationship, on the target of the other direct ones, and on the pivot, once for each
end, of a many-to-many relationship. -/
def conventionalMapping (catalog : Catalog) (source target : Entity) (kind : RelationKind)
    (name : String) : Except LoadError FieldPairs :=
  match kind with
  | .manyToOne => return .direct (← foreignKey source target source.name name)
  | .manyToMany => do
    let pivot ← conventionalPivot catalog source target name
    let toSource ← foreignKey pivot source source.name name
    let toTarget ← foreignKey pivot target source.name name
    return .throughPivot pivot.name (toSource.map Prod.swap) toTarget
  | _ => return .direct ((← foreignKey target source source.name name).map Prod.swap)

/-! ## Making a relationship -/

/-- Checks that an entity has a field that a relationship's pairs name. -/
def requireField (entity : Entity) (field source name : String) : Except LoadError Unit :=
  if entity.hasField field then .ok ()
  else .error (.invalidMapping source name (entity.name ++ "." ++ field ++ " does not exist"))

/-- Adds the equalities of field pairs, checking the fields. -/
def bindPairs (source target : Entity) (name : String) (m : JoinMapping) :
    List (String × String) → Except LoadError JoinMapping
  | [] => .ok m
  | (sourceField, targetField) :: rest => do
    requireField source sourceField source.name name
    requireField target targetField source.name name
    bindPairs source target name (m.bind target.name source.name sourceField targetField) rest

/-- Adds a group of field pairs, of which there is at least one. -/
def bindGroup (source target : Entity) (name : String) (m : JoinMapping)
    (pairs : List (String × String)) : Except LoadError JoinMapping :=
  if pairs.isEmpty then
    .error (.invalidMapping source.name name ("no join fields towards " ++ target.name))
  else bindPairs source target name m pairs

/-- The pivot and the join mapping of field pairs. -/
def joinMapping (catalog : Catalog) (source target : Entity) (name : String) :
    FieldPairs → Except LoadError (Option Entity × JoinMapping)
  | .direct pairs => do
    let mapping ← bindGroup source target name {} pairs
    return (none, mapping)
  | .throughPivot pivotName toPivot toTarget => do
    let pivot ← catalog.entity pivotName
    let mapping ← bindGroup source pivot name {} toPivot
    let mapping ← bindGroup pivot target name mapping toTarget
    return (some pivot, mapping)

/-- The property of a relationship by convention. -/
def conventionalProperty (kind : RelationKind) (name : String) : String :=
  match kind with
  | .manyToMany => Text.lower (RelationKind.baseName name) ++ "s"
  | .manyToOne => Text.lower (RelationKind.baseName name)
  | _ => Text.lower name

/-- The name of the way back by convention: the source with the suffix of the reversed kind. -/
def conventionalReverse (source : Entity) (kind : RelationKind) : String :=
  source.name ++ String.ofList kind.reverse.suffixChar.toList

/-- The target of a relationship. A target that is missing is an unknown entity if a definition led
to it and an unknown relationship if only the name did. -/
def targetEntity (catalog : Catalog) (entity name : String)
    (definition : Option RelationDefinition) : Except LoadError Entity :=
  let targetName := (definition.bind (·.target)).getD (RelationKind.baseName name)
  match catalog.find? targetName, definition with
  | some target, _ => .ok target
  | none, some _ => .error (.unknownEntity targetName)
  | none, none => .error (.unknownRelationship entity name)

/-- Makes the relationship of a name on an entity from its definition, if it has one, and from the
convention. -/
def build (catalog : Catalog) (entity name : String) (definition : Option RelationDefinition) :
    Except LoadError Relation := do
  let source ← catalog.entity entity
  let kind := (definition.bind (·.kind)).getD (RelationKind.ofName name)
  let target ← targetEntity catalog entity name definition
  let pairs ←
    match definition.bind (·.mapping) with
    | some pairs => .ok pairs
    | none => conventionalMapping catalog source target kind name
  let (pivot, mapping) ← joinMapping catalog source target name pairs
  return {
    source, name, target, kind, pivot, mapping
    property := (definition.bind (·.property)).getD (conventionalProperty kind name)
    reverseName := (definition.bind (·.reverse)).getD (conventionalReverse source kind)
    reverseDeclared := (definition.bind (·.reverse)).isSome }

/-! ## Joining -/

/-- The entity of a name among those that the relationship connects. -/
def entity (r : Relation) (name : String) : Except LoadError Entity :=
  if r.target.name = name then .ok r.target
  else if r.source.name = name then .ok r.source
  else
    match r.pivot.filter (·.name == name) with
    | some pivot => .ok pivot
    | none =>
      .error (.internal ("entity " ++ name ++ " is not part of relationship " ++ r.source.name ++
        "." ++ r.name))

/-- The alias of a pivot that is joined between two aliases. -/
def pivotAlias (sourceAlias targetAlias entity : String) : String :=
  sourceAlias ++ "__" ++ targetAlias ++ "__" ++ entity

/-- The alias under which an entity is joined. -/
def joinedAlias (r : Relation) (sourceAlias targetAlias entity : String) : String :=
  if entity = r.target.name then targetAlias
  else if entity = r.source.name then sourceAlias
  else pivotAlias sourceAlias targetAlias entity

/-- The alias under which an entity is met that another is joined to. -/
def metAlias (r : Relation) (sourceAlias targetAlias entity : String) : String :=
  if entity = r.source.name then sourceAlias
  else if entity = r.target.name then targetAlias
  else pivotAlias sourceAlias targetAlias entity

/-- The fields of a joined entity with the columns they equal, of one entity it is joined to. -/
def fieldBindings (entity : Entity) (aliasName : String) :
    List (String × String) → Except LoadError (List (String × Expr))
  | [] => .ok []
  | (sourceField, targetField) :: rest => do
    let column ← entity.fieldExpr aliasName sourceField
    let others ← fieldBindings entity aliasName rest
    return (targetField, column) :: others

/-- The fields of a joined entity with the columns they equal. -/
def groupBindings (r : Relation) (sourceAlias targetAlias : String) :
    List (String × OrderedMap String String) → Except LoadError (List (String × Expr))
  | [] => .ok []
  | (name, fields) :: rest => do
    let entity ← r.entity name
    let bindings ← fieldBindings entity (r.metAlias sourceAlias targetAlias name) fields.entries
    let others ← r.groupBindings sourceAlias targetAlias rest
    return bindings ++ others

/-- Joins one entity of the relationship. -/
def joinGroup (r : Relation) (sourceAlias targetAlias : String) (kind : JoinKind)
    (group : String × OrderedMap String (OrderedMap String String)) : Building Unit := do
  let joined ← lift (r.entity group.1)
  let bindings ← lift (r.groupBindings sourceAlias targetAlias group.2.entries)
  joined.joinAs (r.joinedAlias sourceAlias targetAlias group.1) bindings kind

/-- Joins the target, behind the pivot if there is one, to the source that stands in the statement
already. Every equality of the mapping becomes one of a join. -/
def join (r : Relation) (sourceAlias targetAlias : String) (kind : JoinKind) : Building Unit :=
  r.mapping.groups.entries.forM (r.joinGroup sourceAlias targetAlias kind)

end Relation

end GraphLoad
