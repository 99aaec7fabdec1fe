/-
Statements under construction. A `Select` keeps its tables, columns and conditions apart until it is
built for a dialect into the text, the parameters and the result labels of a `Statement`. A label is
selected once; conditions are joined by AND.
-/
import GraphLoad.Sql.Clause
import GraphLoad.Sql.Condition

namespace GraphLoad.Sql

/-- A table: by its name, or as a text that is taken as it stands. -/
inductive Table
  | named (name : String)
  | verbatim (text : String)
deriving DecidableEq

/-- The text of a table. -/
def Table.text : Table → String
  | .named name => nameText name
  | .verbatim text => text

/-- A selected expression and the label it has in the result. -/
structure Column where
  expr : Expr
  label : String
deriving DecidableEq

/-- A joined table. Each pair of `on` equates an expression of the joined table with one of the
tables before it. -/
structure Join where
  kind : JoinKind
  table : Table
  aliasName : String
  on : List (Expr × Expr)
deriving DecidableEq

/-- A statement under construction. -/
structure Select where
  source : Option (Table × String) := none
  columns : List Column := []
  joins : List Join := []
  condition : Condition := .always
  order : List (Expr × Direction) := []
  page : Page := {}

/-- A statement to be sent: its text, its parameters in the order of their marks and the labels of
its result columns. -/
structure Statement where
  text : String
  params : List Value
  labels : List String

namespace Select

/-- A statement over a table. -/
def ofTable (table : Table) (aliasName : String) : Select := { source := some (table, aliasName) }

/-- Selects an expression, unless its label is selected already. -/
def addColumn (q : Select) (column : Column) : Select :=
  if q.columns.any (·.label == column.label) then q
  else { q with columns := q.columns ++ [column] }

/-- Joins a table. -/
def addJoin (q : Select) (join : Join) : Select := { q with joins := q.joins ++ [join] }

/-- Demands a further condition. -/
def restrict (q : Select) (condition : Condition) : Select :=
  { q with condition := q.condition.and condition }

/-- Orders by a further expression. -/
def orderBy (q : Select) (expr : Expr) (direction : Direction) : Select :=
  { q with order := q.order ++ [(expr, direction)] }

/-- Takes a window of the rows. -/
def paginate (q : Select) (page : Page) : Select := { q with page := page }

/-- The result labels in order. -/
def labels (q : Select) : List String := q.columns.map (·.label)

/-- The aliases that the tables of the statement are known under, in order. -/
def aliases (q : Select) : List String :=
  (q.source.map (·.2)).toList ++ q.joins.map (·.aliasName)

/-! ## Text -/

/-- A selected expression under its label. -/
def columnText (dialect : Dialect) (c : Column) : String :=
  c.expr.text ++ " AS " ++ dialect.quoteLabel c.label

/-- What is selected; everything if nothing is named. -/
def columnsText (dialect : Dialect) (columns : List Column) : String :=
  if columns.isEmpty then "*" else String.intercalate ", " (columns.map (columnText dialect))

/-- The table a statement starts from. -/
def sourceText : Option (Table × String) → String
  | some (table, aliasName) => " FROM " ++ table.text ++ " AS " ++ aliasName
  | none => ""

/-- The equalities of a join. -/
def equalitiesText (on : List (Expr × Expr)) : String :=
  String.intercalate " AND " (on.map fun (left, right) => left.text ++ " = " ++ right.text)

/-- A joined table with its equalities. -/
def joinText (j : Join) : String :=
  " " ++ j.kind.keyword ++ " " ++ j.table.text ++ " AS " ++ j.aliasName ++ " ON " ++
    equalitiesText j.on

/-- The condition, if there is one. -/
def conditionText (dialect : Dialect) (c : Condition) : String :=
  if c.isAlways then "" else " WHERE " ++ c.text dialect 0

/-- One term of the ordering. -/
def orderTermText (term : Expr × Direction) : String :=
  term.1.text ++ " " ++ term.2.keyword

/-- The ordering, if there is one. -/
def orderText (order : List (Expr × Direction)) : String :=
  if order.isEmpty then ""
  else " ORDER BY " ++ String.intercalate ", " (order.map orderTermText)

/-- The window of rows, if there is one. -/
def pageText (dialect : Dialect) (page : Page) : String :=
  if page.isEmpty then "" else " " ++ page.text dialect

/-- The text of a statement. -/
def text (q : Select) (dialect : Dialect) : String :=
  "SELECT " ++ columnsText dialect q.columns ++ sourceText q.source ++
    String.join (q.joins.map joinText) ++ conditionText dialect q.condition ++
    orderText q.order ++ pageText dialect q.page

/-- The values that a statement binds. -/
def params (q : Select) : List Value :=
  if q.condition.isAlways then [] else q.condition.params

/-- The statement for a dialect. -/
def build (q : Select) (dialect : Dialect) : Statement :=
  { text := q.text dialect, params := q.params, labels := q.labels }

/-! ## Labels -/

theorem labels_addColumn (q : Select) (c : Column) :
    (q.addColumn c).labels = if c.label ∈ q.labels then q.labels else q.labels ++ [c.label] := by
  unfold addColumn labels
  have h : (q.columns.any fun x => x.label == c.label) = true ↔
      c.label ∈ q.columns.map (·.label) := by
    simp [List.any_eq_true]
  by_cases hc : c.label ∈ q.columns.map (·.label)
  · rw [if_pos (h.2 hc), if_pos hc]
  · rw [if_neg (fun hx => hc (h.1 hx)), if_neg hc]
    simp

end Select

end GraphLoad.Sql
