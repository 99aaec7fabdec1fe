/-
The SQL dialects and what differs between them: how parameters are marked, which quotes enclose
result labels, and how an offset without a limit is written.
-/
import GraphLoad.LoadError
import GraphLoad.Sql.Identifier
import GraphLoad.Text.Blank

namespace GraphLoad.Sql

/-- The dialects that statements are written in. -/
inductive Dialect
  | postgres
  | mysql
  | sqlite
deriving DecidableEq

namespace Dialect

/-- The name of a dialect. -/
def name : Dialect → String
  | postgres => "postgres"
  | mysql => "mysql"
  | sqlite => "sqlite"

/-- The dialect that a text names, in any case and between any blanks. -/
def parse (s : String) : Except LoadError Dialect :=
  let word := Text.lower (Text.trim s)
  if word = "postgres" ∨ word = "postgresql" ∨ word = "pg" then .ok postgres
  else if word = "mysql" ∨ word = "mariadb" then .ok mysql
  else if word = "sqlite" then .ok sqlite
  else .error (.invalidConfiguration "database" s)

/-- The mark of the parameter with this number, counted from one. -/
def placeholder : Dialect → Nat → String
  | postgres, n => "$" ++ toString n
  | mysql, _ => "?"
  | sqlite, _ => "?"

/-- A result label in the quotes of the dialect. -/
def quoteLabel : Dialect → String → String
  | postgres, label => quoteName label
  | mysql, label => enclose '\x60' label
  | sqlite, label => quoteName label

end Dialect

end GraphLoad.Sql
