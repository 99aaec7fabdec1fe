/-
Reading settings from JSON. A setting is the name of its value, or an object with that name as its
only key and null as its value. The engine settings are an object, in which members that are no
settings are passed over, or an array in the order dialect, join, conflicts; what is missing keeps
its default.
-/
import GraphLoad.Json.Reader
import GraphLoad.Settings

namespace GraphLoad

open Sql Json

namespace Settings

/-- The value that a tree names, from a list of names. -/
def named? {α : Type} (names : List (String × α)) : Document → Option α
  | .string pieces => (Piece.text? pieces).bind (names.lookup ·)
  | .object [(key, .null)] => (Piece.text? key).bind (names.lookup ·)
  | _ => none

/-- The names of the dialects. -/
def dialectNames : List (String × Dialect) :=
  [("postgres", .postgres), ("postgresql", .postgres), ("mysql", .mysql), ("sqlite", .sqlite)]

/-- The names of the joins. -/
def joinNames : List (String × JoinKind) := [("inner", .inner), ("left", .left)]

/-- The names of the conflict policies. -/
def conflictNames : List (String × ConflictPolicy) := [("warn", .warn), ("error", .error)]

/-- The names of the directions. -/
def directionNames : List (String × Direction) :=
  [("asc", .ascending), ("desc", .descending)]

/-- Settings read in part; none of them may be read twice. -/
structure Draft where
  dialect : Option Dialect := none
  join : Option JoinKind := none
  conflicts : Option ConflictPolicy := none

/-- The settings of a draft, defaults for what is missing. -/
def Draft.settings (d : Draft) : Settings where
  dialect := d.dialect.getD .postgres
  join := d.join.getD .left
  conflicts := d.conflicts.getD .warn

/-- A setting that is read for the first time. -/
def once? {α : Type} (current : Option α) (names : List (String × α)) (value : Document) :
    Option (Option α) :=
  match current, named? names value with
  | none, some a => some (some a)
  | _, _ => none

/-- The draft with one more member. -/
def Draft.member? (d : Draft) (member : List Piece × Document) : Option Draft :=
  match Piece.text? member.1 with
  | none => none
  | some "database" =>
    (once? d.dialect dialectNames member.2).map fun v => { d with dialect := v }
  | some "join_type" => (once? d.join joinNames member.2).map fun v => { d with join := v }
  | some "link_conflicts" =>
    (once? d.conflicts conflictNames member.2).map fun v => { d with conflicts := v }
  | some _ => some d

/-- The engine settings of a tree. -/
def ofDocument? : Document → Option Settings
  | .object members => (members.foldlM Draft.member? {}).map Draft.settings
  | .array [] => some {}
  | .array [a] => (Draft.member? {} (keyOf "database", a)).map Draft.settings
  | .array [a, b] =>
    ([(keyOf "database", a), (keyOf "join_type", b)].foldlM Draft.member? {}).map Draft.settings
  | .array [a, b, c] =>
    ([(keyOf "database", a), (keyOf "join_type", b), (keyOf "link_conflicts", c)].foldlM
      Draft.member? {}).map Draft.settings
  | _ => none
where
  /-- A key as a string of a tree. -/
  keyOf (s : String) : List Piece := s.toList.map .char

/-- The engine settings of a text. -/
def ofText? (s : String) : Option Settings := (Document.ofText? s).bind ofDocument?

/-- The JSON form of settings. -/
def toJson (s : Settings) : Json :=
  .obj [("database", .str s.dialect.name), ("join_type", .str s.join.name),
    ("link_conflicts", .str s.conflicts.name)]

end Settings

/-- The dialect of a JSON text. -/
def Sql.Dialect.ofText? (s : String) : Option Dialect :=
  (Document.ofText? s).bind (Settings.named? Settings.dialectNames)

/-- The join of a JSON text. -/
def Sql.JoinKind.ofText? (s : String) : Option JoinKind :=
  (Document.ofText? s).bind (Settings.named? Settings.joinNames)

/-- The conflict policy of a JSON text. -/
def ConflictPolicy.ofText? (s : String) : Option ConflictPolicy :=
  (Document.ofText? s).bind (Settings.named? Settings.conflictNames)

/-- The direction of a JSON text. -/
def Sql.Direction.ofText? (s : String) : Option Direction :=
  (Document.ofText? s).bind (Settings.named? Settings.directionNames)

/-- The value of a JSON text. -/
def Value.ofText? (s : String) : Option Value := (Json.ofText? s).map Value.ofJson

end GraphLoad
