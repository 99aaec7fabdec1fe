/-
Result rows: cells under their labels and, once a row has been hydrated for an alias, the object
that was made of the alias's cells, or the fact that there was none.
-/
import GraphLoad.LoadError
import GraphLoad.Object.Store
import GraphLoad.Sql.Label

namespace GraphLoad

open Sql

/-- A row of a result. -/
structure Row where
  cells : OrderedMap String Value := .empty
  objects : OrderedMap String (Option Nat) := .empty

namespace Row

/-- The row of a list of labelled values. -/
def ofList (cells : List (String × Value)) : Row := { cells := .ofList cells }

/-- Number of cells. -/
def size (r : Row) : Nat := r.cells.size

/-- Whether there are no cells. -/
def isEmpty (r : Row) : Bool := r.cells.isEmpty

/-- The row with a cell. -/
def insert (r : Row) (text : String) (value : Value) : Row :=
  { r with cells := r.cells.insert text value }

/-- The cell under a label. -/
def get? (r : Row) (text : String) : Option Value := r.cells.get? text

/-- The cell of a field under an alias. -/
def value? (r : Row) (aliasName field : String) : Option Value := r.get? (label aliasName field)

/-- The cell of a field under an alias, which has to be there. -/
def require (r : Row) (aliasName field : String) : Except LoadError Value :=
  match r.value? aliasName field with
  | some v => .ok v
  | none => .error (.missingColumn (label aliasName field))

/-- The fields and values of the cells of an alias. -/
def cellsOf (r : Row) (aliasName : String) : List (String × Value) :=
  r.cells.entries.filterMap fun (text, value) =>
    (labelledField? aliasName text).map fun field => (field, value)

/-- The name under which the object of an alias is missed. -/
def objectField : String := "__object"

/-- The row with an object, or none, for an alias. -/
def setObject (r : Row) (aliasName : String) (object : Option Nat) : Row :=
  { r with objects := r.objects.insert aliasName object }

/-- The object of an alias, or none; the row has to have been hydrated for it. -/
def object (r : Row) (aliasName : String) : Except LoadError (Option Nat) :=
  match r.objects.get? aliasName with
  | some object => .ok object
  | none => .error (.missingObject (label aliasName objectField))

end Row

end GraphLoad
