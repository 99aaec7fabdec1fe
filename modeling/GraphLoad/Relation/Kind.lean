/-
The kinds of relationship and the convention by which the last character of a name tells the kind.
-/

namespace GraphLoad

/-- How many target objects one source object has. -/
inductive Cardinality
  | one
  | many
deriving DecidableEq

/-- The name of a cardinality. -/
def Cardinality.text : Cardinality → String
  | one => "one"
  | many => "many"

/-- How many objects stand at the two ends of a relationship. -/
inductive RelationKind
  | oneToOne
  | oneToMany
  | manyToOne
  | manyToMany
deriving DecidableEq

namespace RelationKind

/-- The kind that a name ends in: `Z` many-to-many, `S` one-to-many, `1` many-to-one, else
one-to-one. -/
def ofName (name : String) : RelationKind :=
  match name.toList.getLast? with
  | some 'Z' => manyToMany
  | some 'S' => oneToMany
  | some '1' => manyToOne
  | _ => oneToOne

/-- The character that names of this kind end in. -/
def suffixChar : RelationKind → Option Char
  | manyToMany => some 'Z'
  | oneToMany => some 'S'
  | manyToOne => some '1'
  | oneToOne => none

/-- The kind seen from the other end. -/
def reverse : RelationKind → RelationKind
  | manyToMany => manyToMany
  | oneToMany => manyToOne
  | manyToOne => oneToMany
  | oneToOne => manyToOne

/-- Whether a source object has many targets. -/
def isMany : RelationKind → Bool
  | oneToMany => true
  | manyToMany => true
  | manyToOne => false
  | oneToOne => false

/-- Whether a source object has one target. -/
def isOne : RelationKind → Bool
  | manyToOne => true
  | oneToOne => true
  | oneToMany => false
  | manyToMany => false

/-- The cardinality of the target. -/
def cardinality (k : RelationKind) : Cardinality := if k.isMany then .many else .one

/-- A name without the character that tells its kind. -/
def baseName (name : String) : String :=
  match name.toList.getLast? with
  | some 'Z' => String.ofList name.toList.dropLast
  | some 'S' => String.ofList name.toList.dropLast
  | some '1' => String.ofList name.toList.dropLast
  | _ => name

end RelationKind

end GraphLoad
