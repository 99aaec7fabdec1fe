/-
JSON documents: the type, objects with their members in key order and each key once, and the
equality that compares numbers by kind and value, so that `1` and `1.0` differ while `0.0` and
`-0.0` do not.
-/
import GraphLoad.Number.Double

namespace GraphLoad

/-- A JSON document. Whole numbers lie between `-2 ^ 63` and `2 ^ 64 - 1`; floats are finite. -/
inductive Json
  | null
  | bool (b : Bool)
  | int (n : Int)
  | float (d : Double)
  | str (s : String)
  | arr (items : List Json)
  | obj (members : List (String × Json))

namespace Json

instance : Inhabited Json := ⟨.null⟩

/-! ## Objects -/

/-- The members with `value` under `key`, in key order; a member of that key is replaced. -/
def insertMember (key : String) (value : Json) : List (String × Json) → List (String × Json)
  | [] => [(key, value)]
  | (k, v) :: rest =>
    if key = k then (key, value) :: rest
    else if key < k then (key, value) :: (k, v) :: rest
    else (k, v) :: insertMember key value rest

/-- The object of a list of members; of two members with one key the later counts. -/
def ofMembers (members : List (String × Json)) : Json :=
  .obj (members.foldl (fun sorted m => insertMember m.1 m.2 sorted) [])

/-- The member of an object. -/
def member? (key : String) : Json → Option Json
  | .obj members => (members.find? (·.1 == key)).map (·.2)
  | _ => none

/-! ## Equality -/

mutual

/-- Equality of documents: whole numbers by value, floats numerically, and never one with the
other. -/
def equal : Json → Json → Bool
  | .null, .null => true
  | .bool a, .bool b => a == b
  | .int a, .int b => a == b
  | .float a, .float b => a.numEq b
  | .str a, .str b => a == b
  | .arr as, .arr bs => equalItems as bs
  | .obj as, .obj bs => equalMembers as bs
  | _, _ => false

/-- Equality of lists of documents, place by place. -/
def equalItems : List Json → List Json → Bool
  | [], [] => true
  | a :: as, b :: bs => equal a b && equalItems as bs
  | _, _ => false

/-- Equality of member lists, place by place. -/
def equalMembers : List (String × Json) → List (String × Json) → Bool
  | [], [] => true
  | (j, a) :: as, (k, b) :: bs => j == k && equal a b && equalMembers as bs
  | _, _ => false

end

end Json

end GraphLoad
