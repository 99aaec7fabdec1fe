/-
The small clauses of a statement: the kind of a join, the direction of an ordering and the window of
rows.
-/
import GraphLoad.Sql.Dialect

namespace GraphLoad.Sql

/-! ## Joins -/

/-- Whether rows without a partner are kept. -/
inductive JoinKind
  | inner
  | left
deriving DecidableEq

namespace JoinKind

/-- The keyword of a join. -/
def keyword : JoinKind → String
  | inner => "INNER JOIN"
  | left => "LEFT JOIN"

/-- The name of a kind of join. -/
def name : JoinKind → String
  | inner => "inner"
  | left => "left"

/-- The kind of join that a text names, in any case and between any blanks. -/
def parse (s : String) : Except LoadError JoinKind :=
  let word := Text.lower (Text.trim s)
  if word = "inner" then .ok inner
  else if word = "left" then .ok left
  else .error (.invalidConfiguration "join_type" s)

end JoinKind

/-! ## Directions -/

/-- The direction of an ordering. -/
inductive Direction
  | ascending
  | descending
deriving DecidableEq

namespace Direction

/-- The keyword of a direction. -/
def keyword : Direction → String
  | ascending => "ASC"
  | descending => "DESC"

/-- The name of a direction. -/
def name : Direction → String
  | ascending => "asc"
  | descending => "desc"

/-- The direction whose keyword a text is, in any case and between any blanks. -/
def parse (s : String) : Except LoadError Direction :=
  let word := Text.upper (Text.trim s)
  if word = "ASC" then .ok ascending
  else if word = "DESC" then .ok descending
  else .error (.invalidOrderBy s)

end Direction

/-! ## Windows -/

/-- A window of rows: how many are skipped and how many are then taken. -/
structure Page where
  limit : Option Nat := none
  offset : Option Nat := none
deriving DecidableEq

namespace Page

/-- Whether every row is taken. -/
def isEmpty (p : Page) : Bool := p.limit.isNone && p.offset.isNone

/-- The window that takes at most `n` rows. -/
def withLimit (p : Page) (n : Nat) : Page := { p with limit := some n }

/-- The window that skips `n` rows. -/
def withOffset (p : Page) (n : Nat) : Page := { p with offset := some n }

@[simp] theorem withLimit_limit (p : Page) (n : Nat) : (p.withLimit n).limit = some n := rfl

@[simp] theorem withLimit_offset (p : Page) (n : Nat) : (p.withLimit n).offset = p.offset := rfl

@[simp] theorem withOffset_offset (p : Page) (n : Nat) : (p.withOffset n).offset = some n := rfl

@[simp] theorem withOffset_limit (p : Page) (n : Nat) : (p.withOffset n).limit = p.limit := rfl

/-- The largest number of rows a statement can ask for. -/
def maxRows : Nat := UInt64.size - 1

/-- The clause of a window. Only one dialect lets an offset stand without a limit; the others write
a limit that excludes nothing. -/
def text (p : Page) (dialect : Dialect) : String :=
  match p.limit, p.offset with
  | some limit, some offset => "LIMIT " ++ toString limit ++ " OFFSET " ++ toString offset
  | some limit, none => "LIMIT " ++ toString limit
  | none, some offset =>
    match dialect with
    | .postgres => "OFFSET " ++ toString offset
    | .sqlite => "LIMIT -1 OFFSET " ++ toString offset
    | .mysql => "LIMIT " ++ toString maxRows ++ " OFFSET " ++ toString offset
  | none, none => ""

end Page

end GraphLoad.Sql
