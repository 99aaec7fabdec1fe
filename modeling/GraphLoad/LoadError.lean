/-
What can go wrong while a load is declared, planned, executed and hydrated. Every error has a code,
whose first digit is the stage that raises it, a message, and a context that names the entity, field
and statement concerned and suggests what to do.
-/

namespace GraphLoad

/-- The kinds of error. -/
inductive ErrorCode
  | unknownEntity
  | unknownField
  | unknownRelationship
  | invalidChainPolicy
  | invalidOrderBy
  | invalidOperator
  | invalidMapping
  | invalidConfiguration
  | foreignSet
  | databaseError
  | sqlSyntax
  | connectionFailed
  | queryTimeout
  | missingColumn
  | missingObject
  | conflictingLink
  | internal
deriving DecidableEq

namespace ErrorCode

/-- The number of a code. -/
def number : ErrorCode → Nat
  | unknownEntity => 1001
  | unknownField => 1002
  | unknownRelationship => 1003
  | invalidChainPolicy => 1004
  | invalidOrderBy => 1005
  | invalidOperator => 1006
  | invalidMapping => 1007
  | invalidConfiguration => 1008
  | foreignSet => 2001
  | databaseError => 3001
  | sqlSyntax => 3002
  | connectionFailed => 3003
  | queryTimeout => 3004
  | missingColumn => 4001
  | missingObject => 4002
  | conflictingLink => 4003
  | internal => 9001

/-- The code as it is shown. -/
def text (c : ErrorCode) : String := "W" ++ toString c.number

/-- A few words on the kind of error. -/
def description : ErrorCode → String
  | unknownEntity => "Unknown entity"
  | unknownField => "Unknown field"
  | unknownRelationship => "Unknown relationship"
  | invalidChainPolicy => "Invalid chain policy"
  | invalidOrderBy => "Invalid order-by clause"
  | invalidOperator => "Invalid filter operator"
  | invalidMapping => "Invalid relationship mapping"
  | invalidConfiguration => "Invalid configuration"
  | foreignSet => "Set belongs to another session"
  | databaseError => "Database error"
  | sqlSyntax => "SQL syntax error"
  | connectionFailed => "Database connection failed"
  | queryTimeout => "Query timeout"
  | missingColumn => "Missing result column"
  | missingObject => "Missing materialized object"
  | conflictingLink => "Conflicting relationship link"
  | internal => "Internal error"

/-- The stage that raises an error, the first digit of its number. -/
def stage (c : ErrorCode) : Nat := c.number / 1000

end ErrorCode

/-- Advice on how to mend an error, with an example where one helps. -/
structure Suggestion where
  text : String
  code : Option String := none
deriving DecidableEq

/-- What an error is about. -/
structure ErrorContext where
  operation : Option String := none
  entity : Option String := none
  field : Option String := none
  sql : Option String := none
  suggestions : List Suggestion := []
  help : Option String := none
deriving DecidableEq

/-- An error; `cause` is the text of the error that it was made from. -/
structure LoadError where
  code : ErrorCode
  message : String
  context : ErrorContext := {}
  cause : Option String := none
deriving DecidableEq

namespace LoadError

/-! ## Context -/

/-- Names what was being done. -/
def during (e : LoadError) (operation : String) : LoadError :=
  { e with context.operation := some operation }

/-- Names the entity. -/
def onEntity (e : LoadError) (entity : String) : LoadError :=
  { e with context.entity := some entity }

/-- Names the field, property or relationship. -/
def onField (e : LoadError) (field : String) : LoadError :=
  { e with context.field := some field }

/-- Records the statement. -/
def withSql (e : LoadError) (sql : String) : LoadError :=
  { e with context.sql := some sql }

/-- Records the statement unless the error has one. -/
def withMissingSql (e : LoadError) (sql : String) : LoadError :=
  if e.context.sql.isNone then e.withSql sql else e

/-- Adds advice. -/
def suggest (e : LoadError) (text : String) (code : Option String := none) : LoadError :=
  { e with context.suggestions := e.context.suggestions ++ [⟨text, code⟩] }

/-- Sets the closing advice. -/
def withHelp (e : LoadError) (help : String) : LoadError :=
  { e with context.help := some help }

/-- Records the text of the error behind this one. -/
def causedBy (e : LoadError) (cause : String) : LoadError :=
  { e with cause := some cause }

/-- An error without context. -/
def plain (code : ErrorCode) (message : String) : LoadError := { code, message }

/-! ## Configuration -/

/-- The schema has no entity of the name. -/
def unknownEntity (entity : String) : LoadError :=
  (plain .unknownEntity s!"Entity '{entity}' is not registered in the schema").onEntity entity
    |>.suggest "Register the entity with SchemaBuilder::entity() before building the schema"

/-- The entity has no field of the name. -/
def unknownField (entity field : String) : LoadError :=
  plain .unknownField s!"Entity '{entity}' has no field '{field}'"
    |>.onEntity entity |>.onField field

/-- Neither a definition nor the naming convention gives the relationship. -/
def unknownRelationship (entity name : String) : LoadError :=
  (plain .unknownRelationship s!"Relationship '{name}' cannot be resolved on entity '{entity}'"
    |>.onEntity entity |>.onField name)
    |>.suggest "Register the relationship explicitly with SchemaBuilder::relationship()"
    |>.suggest "Or follow the naming convention: the suffix selects the cardinality"
      (some "BOOKS -> one-to-many, AUTHOR1 -> many-to-one, TAGZ -> many-to-many")

/-- The text names no chain policy. -/
def invalidChainPolicy (value : String) : LoadError :=
  plain .invalidChainPolicy s!"Invalid chain policy '{value}'"
    |>.suggest "Use one of: auto, root, slave"

/-- The text is no ordering. -/
def invalidOrderBy (clause : String) : LoadError :=
  plain .invalidOrderBy s!"Malformed order-by clause '{clause}'"
    |>.suggest "Use a field name optionally followed by a direction" (some "title DESC")

/-- The text is no comparison operator. -/
def invalidOperator (operator : String) : LoadError :=
  plain .invalidOperator s!"Unsupported filter operator '{operator}'"
    |>.suggest ("Supported operators: =, !=, <, <=, >, >=, LIKE, NOT LIKE, IN, NOT IN, IS NULL, " ++
      "IS NOT NULL")

/-- A relationship's field pairs do not fit the schema. -/
def invalidMapping (entity relationship message : String) : LoadError :=
  plain .invalidMapping s!"Invalid mapping for {entity}.{relationship}: {message}"
    |>.onEntity entity |>.onField relationship

/-- A setting has no such value. -/
def invalidConfiguration (key value : String) : LoadError :=
  plain .invalidConfiguration s!"Invalid value '{value}' for {key}" |>.onField key

/-! ## References -/

/-- A set was used outside its session. -/
def foreignSet (aliasName : String) : LoadError :=
  plain .foreignSet s!"Set '{aliasName}' does not belong to this query session"
    |>.onField aliasName
    |>.withHelp ("Sets can only be used as relationship sources within the session that created " ++
      "them")

/-! ## Execution -/

/-- The database failed. -/
def database (message : String) : LoadError := plain .databaseError message

/-- An error of some other kind, taken as a failure of the database. -/
def ofCause (cause : String) : LoadError := (database cause).causedBy cause

/-- The database rejected the statement. -/
def sqlSyntax (message sql : String) : LoadError :=
  (plain .sqlSyntax s!"SQL syntax error: {message}").withSql sql

/-- The database could not be reached. -/
def connection (message : String) : LoadError :=
  plain .connectionFailed s!"Connection error: {message}"

/-- The database took too long. -/
def timeout (milliseconds : Nat) : LoadError :=
  plain .queryTimeout s!"Query timed out after {milliseconds}ms"

/-! ## Hydration -/

/-- A row lacks a column of its statement. -/
def missingColumn (column : String) : LoadError :=
  plain .missingColumn s!"Result row has no column '{column}'"
    |>.onField column
    |>.withHelp "The executor must return every column labelled in the compiled query"

/-- A row has not been given its object for an alias. -/
def missingObject (aliasName : String) : LoadError :=
  plain .missingObject s!"Result row has no materialized object for alias '{aliasName}'"
    |>.onField aliasName

/-- A property for one object was given two. -/
def conflictingLink (entity property : String) : LoadError :=
  plain .conflictingLink
      s!"Property {entity}.{property} was linked to two different objects in one result"
    |>.onEntity entity |>.onField property
    |>.suggest "Check that the foreign key behind this relationship is unique"

/-- The library contradicts itself. -/
def internal (message : String) : LoadError :=
  plain .internal s!"Internal error: {message}"

/-! ## Kinds -/

/-- Raised while a load is declared or planned. -/
def isConfiguration (e : LoadError) : Bool := e.code.stage == 1

/-- Raised for a set of another session. -/
def isReferential (e : LoadError) : Bool := e.code.stage == 2

/-- Raised by the database. -/
def isExecution (e : LoadError) : Bool := e.code.stage == 3

/-- Raised for rows that do not fit their statement. -/
def isHydration (e : LoadError) : Bool := e.code.stage == 4

/-- Raised because the database took too long. -/
def isTimeout (e : LoadError) : Bool := e.code == .queryTimeout

/-! ## Texts -/

/-- Code and message on one line. -/
def text (e : LoadError) : String := "[" ++ e.code.text ++ "] " ++ e.message

/-- How many characters of a statement a report shows. -/
def sqlWidth : Nat := 200

/-- A statement, cut after `sqlWidth` characters. -/
def shownSql (sql : String) : String :=
  if sql.length > sqlWidth then String.ofList (sql.toList.take sqlWidth) ++ "..." else sql

/-- One line of a report, if there is something to show on it. -/
def contextLine (title : String) : Option String → String
  | some text => "  → " ++ title ++ ": " ++ text ++ "\n"
  | none => ""

/-- A text whose lines after the first are indented like its first. -/
def indentLines (s : String) : String :=
  String.ofList (s.toList.flatMap fun c => if c = '\n' then "\n     ".toList else [c])

/-- A numbered suggestion, its example fenced. -/
def suggestionText (number : Nat) (s : Suggestion) : String :=
  "  " ++ toString number ++ ". " ++ s.text ++ "\n" ++
    match s.code with
    | some code => "     ```\n     " ++ indentLines code ++ "\n     ```\n"
    | none => ""

/-- The suggestions of a report under their heading. -/
def suggestionsText : List Suggestion → String
  | [] => ""
  | suggestions =>
    "\nSuggestions:\n" ++
      String.join (suggestions.mapIdx fun i suggestion => suggestionText (i + 1) suggestion)

/-- The closing advice of a report. -/
def helpText : Option String → String
  | some help => "\nHelp: " ++ help ++ "\n"
  | none => ""

/-- Everything that is known of an error, over several lines. -/
def report (e : LoadError) : String :=
  "Error [" ++ e.code.text ++ "]: " ++ e.message ++ "\n" ++
    contextLine "While" e.context.operation ++
    contextLine "Entity" e.context.entity ++
    contextLine "Field" e.context.field ++
    contextLine "SQL" (e.context.sql.map shownSql) ++
    suggestionsText e.context.suggestions ++
    helpText e.context.help

end LoadError

end GraphLoad
