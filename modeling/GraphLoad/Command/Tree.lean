/-
Command trees: which sets are to be loaded, each from the set of its parent along a relationship.
The tree only grows; a command is numbered by its place, and its set has an alias of its own made
from the name of its entity and that number.
-/
import GraphLoad.Relation
import GraphLoad.Request.Modifiers

namespace GraphLoad

/-- Where a set is loaded from: the command of the source set and the relationship followed. -/
structure Origin where
  parent : Nat
  relation : Relation

/-- A set to be loaded. The first command of a tree has no origin. -/
structure Command where
  id : Nat
  aliasName : String
  entity : Entity
  origin : Option Origin
  children : List Nat := []
  modifiers : Modifiers := {}

namespace Command

/-- The command of the source set. -/
def parent (c : Command) : Option Nat := c.origin.map Origin.parent

/-- The relationship followed. -/
def relation (c : Command) : Option Relation := c.origin.map Origin.relation

/-- The cardinality of the relationship; a set without one counts as many. -/
def cardinality (c : Command) : Cardinality :=
  match c.origin with
  | some origin => origin.relation.cardinality
  | none => .many

/-- Whether only a window of the set is loaded. -/
def isPaginated (c : Command) : Bool := !c.modifiers.page.isEmpty

/-- The command with one more child. -/
def addChild (c : Command) (child : Nat) : Command :=
  { c with children := c.children ++ [child] }

end Command

/-- A handle on the set of a command, good in the session it comes from. -/
structure SetRef where
  session : Nat
  command : Nat
  aliasName : String
deriving DecidableEq

/-- The commands of a session in the order they were added. -/
structure CommandTree where
  session : Nat
  commands : List Command

namespace CommandTree

/-- Number of commands. -/
def size (t : CommandTree) : Nat := t.commands.length

/-- The command of a number. -/
def get? (t : CommandTree) (id : Nat) : Option Command := t.commands[id]?

/-- The aliases of all sets. -/
def aliases (t : CommandTree) : List String := t.commands.map Command.aliasName

/-! ## Aliases -/

/-- The texts to be tried for an alias that is taken: the alias with a number from 1 to `n`. -/
def numbered (base : String) (n : Nat) : List String :=
  (List.range n).map fun k => base ++ "_" ++ toString (k + 1)

/-- An alias that is not taken: the one wished for, or that with the smallest number. -/
def freshAlias (taken : List String) (base : String) : String :=
  if taken.contains base then
    ((numbered base (taken.length + 1)).find? fun a => !taken.contains a).getD base
  else base

/-! ## Growing -/

/-- The tree with a further command. -/
def push (t : CommandTree) (entity : Entity) (origin : Option Origin) : CommandTree :=
  let id := t.size
  let aliasName := freshAlias t.aliases (entity.name ++ toString (id + 1))
  let commands :=
    match origin with
    | some o => t.commands.modify o.parent (·.addChild id)
    | none => t.commands
  { t with commands := commands ++ [{ id, aliasName, entity, origin }] }

/-- The tree that loads an entity. -/
def start (session : Nat) (entity : Entity) : CommandTree :=
  push ⟨session, []⟩ entity none

/-- Adds the set that a relationship leads to from the set of `parent`; gives the number of its
command. The relationship has to start at the entity of that set. -/
def add (t : CommandTree) (parent : Nat) (relation : Relation) :
    Except LoadError (CommandTree × Nat) :=
  match t.get? parent with
  | none => .error (.internal ("no command " ++ toString parent))
  | some source =>
    if source.entity.name = relation.source.name then
      .ok (t.push relation.target (some ⟨parent, relation⟩), t.size)
    else
      .error (.invalidMapping relation.source.name relation.name
        ("set " ++ source.aliasName ++ " holds " ++ source.entity.name))

/-- The tree with the modifiers of one command changed. -/
def modify (t : CommandTree) (id : Nat) (f : Modifiers → Modifiers) : CommandTree :=
  { t with commands := t.commands.modify id fun c => { c with modifiers := f c.modifiers } }

/-- The handle on the set of a command. -/
def setRef? (t : CommandTree) (id : Nat) : Option SetRef :=
  (t.get? id).map fun c => ⟨t.session, id, c.aliasName⟩

end CommandTree

end GraphLoad
