/-
Linking the objects of two aliases along a relationship, row by row. A property for one object that
is given another keeps the last one with a warning, or ends the linking with an error, as the policy
says.
-/
import GraphLoad.Object.Row
import GraphLoad.Relation

namespace GraphLoad

/-- What happens when a property for one object is given a different one. -/
inductive ConflictPolicy
  | warn
  | error
deriving DecidableEq

namespace ConflictPolicy

/-- The name of a policy. -/
def name : ConflictPolicy → String
  | warn => "warn"
  | error => "error"

/-- The policy that a text names, in any case and between any blanks. -/
def parse (s : String) : Except LoadError ConflictPolicy :=
  let word := Text.lower (Text.trim s)
  if word = "warn" then .ok warn
  else if word = "error" then .ok error
  else .error (.invalidConfiguration "link_conflicts" s)

end ConflictPolicy

/-- A warning that a property lost the object `replaced`. -/
structure LinkWarning where
  relation : String
  object : String
  property : String
  replaced : String
deriving DecidableEq

/-- The message of such a warning. -/
def LinkWarning.message : String := "conflicting link, keeping the last row"

/-- A store while it is being linked: how many links were made, how many replaced another, and the
warnings in order. -/
structure Links where
  store : ObjectStore
  made : Nat := 0
  conflicts : Nat := 0
  warnings : List LinkWarning := []

/-- Steps that link objects and may fail. -/
abbrev Linking := EStateM LoadError Links

namespace Links

/-- Counts a link. -/
def count (l : Links) : Links := { l with made := l.made + 1 }

/-- Counts a conflict and keeps its warning. -/
def warn (l : Links) (w : LinkWarning) : Links :=
  { l with conflicts := l.conflicts + 1, warnings := l.warnings ++ [w] }

end Links

namespace Relation

/-- Deals with an object that has lost `previous` from a property. -/
def reportConflict (r : Relation) (policy : ConflictPolicy) (object previous : Nat)
    (property : String) : Linking Unit := do
  let l ← get
  match policy with
  | .error => throw (.conflictingLink (l.store.textOf object) property)
  | .warn => set (l.warn ⟨r.name, l.store.textOf object, property, l.store.textOf previous⟩)

/-- Gives `target` to the property of `source` that the relationship goes by. A collection is there
even without a target. -/
def linkForward (r : Relation) (policy : ConflictPolicy) (source : Nat)
    (target : Option Nat) : Linking Unit := do
  let l ← get
  match r.isMany, target with
  | true, none => set { l with store := l.store.initMany source r.property }
  | true, some target =>
    let (new, store) := l.store.linkMany source r.property target
    let l := { l with store }
    set (if new then l.count else l)
  | false, none => pure ()
  | false, some target =>
    let (previous, store) := l.store.linkOne source r.property target
    set { l with store }
    match previous with
    | some previous => r.reportConflict policy source previous r.property
    | none => modify Links.count

/-- Points the property `back` of `target` at `source`. -/
def linkBack (r : Relation) (policy : ConflictPolicy) (back : String) (source target : Nat) :
    Linking Unit := do
  let l ← get
  let (previous, store) := l.store.linkOne target back source
  set { l with store }
  match previous with
  | some previous => r.reportConflict policy target previous back
  | none => pure ()

/-- The property that a way back writes, if it holds one object. -/
def backProperty : Option Relation → Option String
  | some reverse => if reverse.isMany then none else some reverse.property
  | none => none

/-- Links the objects of one row. -/
def linkRow (r : Relation) (sourceAlias targetAlias : String) (back : Option String)
    (policy : ConflictPolicy) (row : Row) : Linking Unit := do
  match ← lift (row.object sourceAlias) with
  | none => pure ()
  | some source =>
    let target ← lift (row.object targetAlias)
    r.linkForward policy source target
    match back, target with
    | some back, some target => r.linkBack policy back source target
    | _, _ => pure ()

/-- Links the objects of two aliases in every row, and back where the way back holds one object. -/
def link (r : Relation) (sourceAlias targetAlias : String) (reverse : Option Relation)
    (policy : ConflictPolicy) (rows : List Row) : Linking Unit :=
  rows.forM (r.linkRow sourceAlias targetAlias (backProperty reverse) policy)

end Relation

end GraphLoad
