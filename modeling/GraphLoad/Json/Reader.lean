/-
Reading a JSON document from a text: the tree of the text with its numerals and strings given their
meaning. Refused are numbers beyond the range, strings with a lone surrogate and nesting of more
than 127 levels.
-/
import GraphLoad.Json.Document

namespace GraphLoad.Json

namespace Piece

/-- The first half of a pair of code units. -/
def isLead (n : Nat) : Bool := 0xD800 ≤ n && n ≤ 0xDBFF

/-- The second half of a pair of code units. -/
def isTrail (n : Nat) : Bool := 0xDC00 ≤ n && n ≤ 0xDFFF

/-- The characters of a string; two codes that form a pair are one character, and half a pair is
none. -/
def chars? : List Piece → Option (List Char)
  | [] => some []
  | .char c :: rest => (chars? rest).map (c :: ·)
  | .code n :: .code m :: rest =>
    if isLead n then
      if isTrail m then
        (chars? rest).map (Char.ofNat (0x10000 + (n - 0xD800) * 0x400 + (m - 0xDC00)) :: ·)
      else none
    else if isTrail n then none
    else (chars? (.code m :: rest)).map (Char.ofNat n :: ·)
  | .code n :: rest =>
    if isLead n || isTrail n then none else (chars? rest).map (Char.ofNat n :: ·)

/-- The text of a string. -/
def text? (pieces : List Piece) : Option String := (chars? pieces).map String.ofList

end Piece

namespace Document

mutual

/-- The document a tree stands for. -/
def json? : Document → Option Json
  | .null => some .null
  | .bool b => some (.bool b)
  | .number n => n.number?
  | .string pieces => (Piece.text? pieces).map .str
  | .array items => (jsonItems? items).map .arr
  | .object members => (jsonMembers? members).map ofMembers

/-- The documents of a list of trees. -/
def jsonItems? : List Document → Option (List Json)
  | [] => some []
  | item :: rest =>
    match json? item, jsonItems? rest with
    | some item, some rest => some (item :: rest)
    | _, _ => none

/-- The members of an object, in the order they are written. -/
def jsonMembers? : List (List Piece × Document) → Option (List (String × Json))
  | [] => some []
  | (key, value) :: rest =>
    match Piece.text? key, json? value, jsonMembers? rest with
    | some key, some value, some rest => some ((key, value) :: rest)
    | _, _, _ => none

end

end Document

/-- The deepest nesting that is read. -/
def maxDepth : Nat := 127

/-- The JSON document of a text. -/
def ofText? (s : String) : Option Json :=
  match Document.ofText? s with
  | some document => if document.depth ≤ maxDepth then document.json? else none
  | none => none

end GraphLoad.Json
