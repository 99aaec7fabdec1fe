/-
Making objects of the cells of one alias. Rows whose key is null have no object; the others are
given the object that their key identifies. What was loaded before a row without its key stays
loaded.
-/
import GraphLoad.Entity
import GraphLoad.Object.Row

namespace GraphLoad

/-- The outcome of loading an alias: the rows with their objects, the store, and the objects in row
order or the error that ended the loading. -/
structure Loaded where
  rows : List Row
  store : ObjectStore
  objects : Except LoadError (List Nat)

namespace Entity

/-- The values of some key fields of an alias in a row. -/
def keyParts (aliasName : String) (row : Row) : List String → Except LoadError (List Value)
  | [] => .ok []
  | field :: rest => do
    let value ← row.require aliasName field
    let others ← keyParts aliasName row rest
    return value :: others

/-- The primary key of an alias in a row. -/
def rowKey (e : Entity) (row : Row) (aliasName : String) : Except LoadError Key :=
  (keyParts aliasName row e.primaryKey).map Key.mk

/-- The fields of the entity that a row has under an alias. -/
def rowValues (e : Entity) (row : Row) (aliasName : String) : List (String × Value) :=
  (row.cellsOf aliasName).filter fun cell => e.hasField cell.1

/-- Makes the objects of an alias, row by row. -/
def loadRows (e : Entity) (aliasName : String) : List Row → ObjectStore → Loaded
  | [], store => ⟨[], store, .ok []⟩
  | row :: rest, store =>
    match e.rowKey row aliasName with
    | .error err => ⟨row :: rest, store, .error err⟩
    | .ok key =>
      if key.isNull then
        let loaded := e.loadRows aliasName rest store
        { loaded with rows := row.setObject aliasName none :: loaded.rows }
      else
        let (id, store) := store.load e.name key (e.rowValues row aliasName)
        let loaded := e.loadRows aliasName rest store
        { loaded with
          rows := row.setObject aliasName (some id) :: loaded.rows
          objects := loaded.objects.map (id :: ·) }

/-- Makes the objects of an alias; of the objects in row order each is listed once, where it first
came. -/
def objectLoad (e : Entity) (aliasName : String) (rows : List Row) (store : ObjectStore) : Loaded :=
  let loaded := e.loadRows aliasName rows store
  { loaded with objects := loaded.objects.map List.eraseDups }

end Entity

end GraphLoad
