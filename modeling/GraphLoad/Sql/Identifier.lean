/-
Names in SQL text. A name is quoted when it is a reserved word in any spelling of its letters or
holds a character other than ASCII letters, digits and underscores; inside the quotes a quote is
written twice.
-/
import GraphLoad.Text.Case

namespace GraphLoad.Sql

/-- A text between two `q`, with every `q` inside written twice. -/
def enclose (q : Char) (s : String) : String :=
  String.ofList (q :: (s.toList.flatMap fun c => if c = q then [q, q] else [c]) ++ [q])

/-- A name in double quotes. -/
def quoteName (name : String) : String := enclose '\x22' name

/-- The words that cannot stand as bare names, in lower case. -/
def reservedWords : List String := [
  "user", "order", "group", "select", "from", "where", "table", "index", "key", "primary",
  "foreign", "check", "default", "null", "not", "and", "or", "in", "is", "like", "between",
  "case", "when", "then", "else", "end", "as", "on", "join", "left", "right", "inner", "outer",
  "cross", "limit", "offset", "union", "all", "distinct", "having"]

/-- The characters of bare names. -/
def isNameChar (c : Char) : Bool := c.isAlphanum || c == '_'

/-- Whether a name has to be quoted. -/
def needsQuotes (name : String) : Bool :=
  reservedWords.contains (Text.lower name) || !name.toList.all isNameChar

/-- A name as it stands in a statement. -/
def nameText (name : String) : String :=
  if needsQuotes name then quoteName name else name

end GraphLoad.Sql
