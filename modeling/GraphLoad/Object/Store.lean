/-
The objects of a session. Objects are numbered in the order they are made and refer to each other by
number. An entity and a key identify one object: loading them again adds fields to the object there
is. A property holds one object or a collection without repetitions; one that was never loaded is
absent, which is not the same as empty.
-/
import GraphLoad.Object.Key

namespace GraphLoad

/-- What a loaded property holds. -/
inductive Related
  | one (target : Nat)
  | many (targets : List Nat)
deriving DecidableEq

namespace Related

/-- The object of a property that holds one. -/
def one? : Related → Option Nat
  | one target => some target
  | many _ => none

/-- The objects of a property that holds a collection. -/
def many? : Related → Option (List Nat)
  | one _ => none
  | many targets => some targets

end Related

/-- An object: its fields in the order they were first loaded, and its loaded properties. -/
structure Record where
  entity : String
  key : Key
  fields : OrderedMap String Value
  relations : OrderedMap String Related := .empty

namespace Record

/-- Whether the object is the one that an entity and a key identify. -/
def isFor (r : Record) (entity : String) (key : Key) : Bool :=
  r.entity == entity && r.key.meets key

/-- The loaded value of a property. -/
def related? (r : Record) (property : String) : Option Related := r.relations.get? property

/-- Whether a property has been loaded. -/
def isLoaded (r : Record) (property : String) : Bool := (r.related? property).isSome

/-- The object of a property that holds one. -/
def one (r : Record) (property : String) : Option Nat :=
  (r.related? property).bind Related.one?

/-- The collection of a property; empty if there is none. -/
def many (r : Record) (property : String) : List Nat :=
  ((r.related? property).bind Related.many?).getD []

/-- The entity and the key. -/
def text (r : Record) : String := r.entity ++ "#" ++ r.key.text

/-- The object with further values of its fields. -/
def refresh (r : Record) (values : List (String × Value)) : Record :=
  { r with fields := r.fields.insertMany values }

/-- The object with a property. -/
def relate (r : Record) (property : String) (value : Related) : Record :=
  { r with relations := r.relations.insert property value }

/-- The object with a collection under a property, the one it has or an empty one. -/
def initMany (r : Record) (property : String) : Record :=
  match r.related? property with
  | some (.many _) => r
  | _ => r.relate property (.many [])

end Record

/-- The objects in the order of their numbers. -/
structure ObjectStore where
  records : List Record := []

namespace ObjectStore

/-- The store without objects. -/
def empty : ObjectStore := {}

/-- Number of objects. -/
def size (s : ObjectStore) : Nat := s.records.length

/-- The object of a number. -/
def get? (s : ObjectStore) (id : Nat) : Option Record := s.records[id]?

/-- The number of the object that an entity and a key identify. -/
def find? (s : ObjectStore) (entity : String) (key : Key) : Option Nat :=
  s.records.findIdx? (·.isFor entity key)

/-- The store with one object changed. -/
def update (s : ObjectStore) (id : Nat) (f : Record → Record) : ObjectStore :=
  ⟨s.records.modify id f⟩

/-- The object that an entity and a key identify, with the given values, made if there is none. -/
def load (s : ObjectStore) (entity : String) (key : Key) (values : List (String × Value)) :
    Nat × ObjectStore :=
  match s.find? entity key with
  | some id => (id, s.update id (·.refresh values))
  | none => (s.size, ⟨s.records ++ [{ entity, key, fields := .ofList values }]⟩)

/-! ## Links -/

/-- The text of an object, empty for a number that has none. -/
def textOf (s : ObjectStore) (id : Nat) : String := ((s.get? id).map Record.text).getD ""

/-- The store in which a property of an object holds a collection. -/
def initMany (s : ObjectStore) (source : Nat) (property : String) : ObjectStore :=
  s.update source (·.initMany property)

/-- Adds an object to a collection, and says whether it was new there. -/
def linkMany (s : ObjectStore) (source : Nat) (property : String) (target : Nat) :
    Bool × ObjectStore :=
  match s.get? source with
  | none => (false, s)
  | some record =>
    let targets := (record.initMany property).many property
    if targets.contains target then (false, s.initMany source property)
    else (true, s.update source (·.relate property (.many (targets ++ [target]))))

/-- Makes a property hold one object, and gives the different one it held before. -/
def linkOne (s : ObjectStore) (source : Nat) (property : String) (target : Nat) :
    Option Nat × ObjectStore :=
  match s.get? source with
  | none => (none, s)
  | some record =>
    ((record.one property).filter (· ≠ target), s.update source (·.relate property (.one target)))

end ObjectStore

end GraphLoad
