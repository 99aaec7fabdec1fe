/-
Result labels. The cell of a field under an alias is labelled `alias:field`; reading the label back
for an alias gives the field.
-/

namespace GraphLoad.Sql

/-- The label of a field under an alias. -/
def label (aliasName field : String) : String := aliasName ++ ":" ++ field

/-- What follows `start` in a list of characters that begins with it. -/
def afterStart : List Char → List Char → Option (List Char)
  | [], cs => some cs
  | _ :: _, [] => none
  | s :: start, c :: cs => if s = c then afterStart start cs else none

/-- The field that a label names under an alias, if it is a label of the alias. -/
def labelledField? (aliasName text : String) : Option String :=
  (afterStart (aliasName.toList ++ [':']) text.toList).map String.ofList

theorem afterStart_append (start cs : List Char) : afterStart start (start ++ cs) = some cs := by
  induction start with
  | nil => rfl
  | cons s start ih => simp [afterStart, ih]

theorem labelledField?_label (aliasName field : String) :
    labelledField? aliasName (label aliasName field) = some field := by
  have h : (label aliasName field).toList = (aliasName.toList ++ [':']) ++ field.toList := by
    simp [label, String.toList_append]
  rw [labelledField?, h, afterStart_append]
  simp

end GraphLoad.Sql
