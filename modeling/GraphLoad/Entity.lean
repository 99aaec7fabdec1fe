/-
Entities: mapped tables with their fields, primary key and declared foreign keys. An entity is made
from a draft; its type says what the making checks, that keys consist of declared fields.
-/
import GraphLoad.LoadError
import GraphLoad.OrderedMap
import GraphLoad.Sql.Select
import GraphLoad.Text.Case

namespace GraphLoad

open Sql

/-- A mapped table: the column of each field, the fields of the primary key, and for each referenced
entity the local fields with the fields they refer to. -/
structure Entity where
  name : String
  table : String
  columns : OrderedMap String String
  primaryKey : List String
  foreignKeys : OrderedMap String (OrderedMap String String)
  primaryKey_ne_nil : primaryKey ≠ []
  primaryKey_declared : ∀ field ∈ primaryKey, field ∈ columns.keys
  foreignKeys_declared : ∀ key ∈ foreignKeys.values, ∀ field ∈ key.keys, field ∈ columns.keys
deriving DecidableEq

namespace Entity

/-- One field makes a key. -/
theorem single_ne_nil (field : String) : [field] ≠ [] := List.cons_ne_nil field []

/-- What is declared of an entity. Without a table name the lower-case name of the entity is taken,
without a primary key the field `id`. -/
structure Draft where
  name : String
  table : Option String := none
  columns : OrderedMap String String := .empty
  primaryKey : List String := []
  foreignKeys : OrderedMap String (OrderedMap String String) := .empty

namespace Draft

/-- Adds a field stored in the given column; a known field gets the new column. -/
def column (d : Draft) (field column : String) : Draft :=
  { d with columns := d.columns.insert field column }

/-- Adds a field stored in the column of its name. -/
def field (d : Draft) (name : String) : Draft := d.column name name

/-- Declares a foreign key as pairs of a local field and a referenced field. -/
def references (d : Draft) (entity : String) (pairs : List (String × String)) : Draft :=
  { d with foreignKeys := d.foreignKeys.insert entity (.ofList pairs) }

/-- The primary key, by default the field `id`. -/
def key (d : Draft) : List String := if d.primaryKey.isEmpty then ["id"] else d.primaryKey

theorem key_ne_nil (d : Draft) : d.key ≠ [] := by
  unfold key
  split
  · simp
  · next h => simpa using h

/-- The local fields of all foreign keys. -/
def localFields (d : Draft) : List String := d.foreignKeys.values.flatMap (·.keys)

end Draft

/-- The first of the fields that is not declared. -/
def firstUndeclared (columns : OrderedMap String String) (fields : List String) : Option String :=
  fields.find? fun field => !columns.contains field

theorem declared_of_firstUndeclared {columns : OrderedMap String String} {fields : List String}
    (h : firstUndeclared columns fields = none) : ∀ field ∈ fields, field ∈ columns.keys := by
  intro field hf
  have hn := List.find?_eq_none.1 h field hf
  exact (columns.contains_iff_mem_keys field).1 (by simpa using hn)

/-- Makes the entity of a draft, unless one of its keys has a field that is not declared. -/
def ofDraft (d : Draft) : Except LoadError Entity :=
  match hkey : firstUndeclared d.columns d.key with
  | some field => .error ((LoadError.unknownField d.name field).during "declare primary key")
  | none =>
    match hlocal : firstUndeclared d.columns d.localFields with
    | some field => .error ((LoadError.unknownField d.name field).during "declare foreign key")
    | none =>
      .ok {
        name := d.name
        table := d.table.getD (Text.lower d.name)
        columns := d.columns
        primaryKey := d.key
        foreignKeys := d.foreignKeys
        primaryKey_ne_nil := d.key_ne_nil
        primaryKey_declared := declared_of_firstUndeclared hkey
        foreignKeys_declared := fun key hk field hf =>
          declared_of_firstUndeclared hlocal field (List.mem_flatMap.2 ⟨key, hk, hf⟩) }

/-- The names of the fields, in order of declaration. -/
def fields (e : Entity) : List String := e.columns.keys

/-- Whether the entity has a field. -/
def hasField (e : Entity) (field : String) : Bool := e.columns.contains field

/-- The declared foreign key to an entity. -/
def foreignKeyTo? (e : Entity) (entity : String) : Option (OrderedMap String String) :=
  e.foreignKeys.get? entity

/-- The column of a field under an alias. -/
def fieldExpr (e : Entity) (aliasName field : String) : Except LoadError Expr :=
  match e.columns.get? field with
  | some column => .ok (.column aliasName column)
  | none => .error (.unknownField e.name field)

end Entity

end GraphLoad
