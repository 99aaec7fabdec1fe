/-
What an entity writes into a statement: labelled columns, ordering terms and itself as a joined
table. A step that fails has already written what came before the failure.
-/
import GraphLoad.Entity
import GraphLoad.Sql.Label

namespace GraphLoad

open Sql

/-- Steps that write into a statement and may fail. -/
abbrev Building := EStateM LoadError Select

/-- A result that may have failed, as a step of any such computation. -/
def lift {σ α : Type} : Except LoadError α → EStateM LoadError σ α
  | .ok a => pure a
  | .error e => throw e

namespace Entity

/-- Selects one field under an alias. -/
def selectField (e : Entity) (aliasName field : String) : Building Unit := do
  let expr ← lift (e.fieldExpr aliasName field)
  modify (·.addColumn ⟨expr, label aliasName field⟩)

/-- Selects fields under an alias, in the order given. -/
def selectFields (e : Entity) (aliasName : String) (fields : List String) : Building Unit :=
  fields.forM (e.selectField aliasName)

/-- Orders by a field under an alias. -/
def orderByField (e : Entity) (aliasName field : String) (direction : Direction) :
    Building Unit := do
  let expr ← lift (e.fieldExpr aliasName field)
  modify (·.orderBy expr direction)

/-- The equalities of a join that binds fields of this entity to expressions of tables before it. -/
def equalities (e : Entity) (aliasName : String) :
    List (String × Expr) → Except LoadError (List (Expr × Expr))
  | [] => .ok []
  | (field, expr) :: rest => do
    let column ← e.fieldExpr aliasName field
    let others ← e.equalities aliasName rest
    return (column, expr) :: others

/-- Joins this entity under an alias. A join binds at least one field. -/
def joinAs (e : Entity) (aliasName : String) (bindings : List (String × Expr)) (kind : JoinKind) :
    Building Unit := do
  if bindings.isEmpty then throw (.invalidMapping e.name aliasName "join without bindings")
  let on ← lift (e.equalities aliasName bindings)
  modify (·.addJoin ⟨kind, .named e.table, aliasName, on⟩)

end Entity

end GraphLoad
