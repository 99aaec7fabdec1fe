/-
Values of result cells and statement parameters. Three readings of one value stand side by side: its
text, its JSON form, and what it is as part of a key, which compares floats by their bits and is
also given as the sequence of words that a hash sees.
-/
import GraphLoad.Json.Printer

namespace GraphLoad

/-- A value of a column, or a list of values bound to a membership test. -/
inductive Value
  | null
  | bool (b : Bool)
  | int (n : Int64)
  | float (d : Double)
  | str (s : String)
  | json (j : Json)
  | list (items : List Value)

namespace Value

instance : Inhabited Value := ⟨.null⟩

/-- Whether the value is null. -/
def isNull : Value → Bool
  | .null => true
  | _ => false

/-- The number of an integer. -/
def asInt : Value → Option Int64
  | .int n => some n
  | _ => none

/-- The text of a string. -/
def asString : Value → Option String
  | .str s => some s
  | _ => none

/-! ## Comparison -/

mutual

/-- Equality as values: floats numerically. -/
def equal : Value → Value → Bool
  | .null, .null => true
  | .bool a, .bool b => a == b
  | .int a, .int b => a == b
  | .float a, .float b => a.numEq b
  | .str a, .str b => a == b
  | .json a, .json b => a.equal b
  | .list as, .list bs => equalAll as bs
  | _, _ => false

/-- Equality of lists, place by place. -/
def equalAll : List Value → List Value → Bool
  | [], [] => true
  | a :: as, b :: bs => equal a b && equalAll as bs
  | _, _ => false

end

mutual

/-- Sameness as parts of a key: floats by their bits, so that a NaN is the same as itself and the
two zeros are not the same. -/
def sameAs : Value → Value → Bool
  | .null, .null => true
  | .bool a, .bool b => a == b
  | .int a, .int b => a == b
  | .float a, .float b => a.bits == b.bits
  | .str a, .str b => a == b
  | .json a, .json b => a.equal b
  | .list as, .list bs => sameAll as bs
  | _, _ => false

/-- Sameness of lists, place by place. -/
def sameAll : List Value → List Value → Bool
  | [], [] => true
  | a :: as, b :: bs => sameAs a b && sameAll as bs
  | _, _ => false

end

/-! ## Hashing -/

/-- A piece of what a hash is fed. -/
inductive HashWord
  | byte (n : UInt8)
  | word (n : UInt64)
  | text (s : String)
deriving DecidableEq

mutual

/-- What a value feeds to a hash: its kind, then its content; a list feeds its length first. -/
def feed : Value → List HashWord
  | .null => [.byte 0]
  | .bool b => [.byte 1, .byte (if b then 1 else 0)]
  | .int n => [.byte 2, .word n.toUInt64]
  | .float d => [.byte 3, .word d.bits]
  | .str s => [.byte 4, .text s]
  | .json j => [.byte 5, .text j.text]
  | .list items => .byte 6 :: .word (UInt64.ofNat items.length) :: feedAll items

/-- What the values of a list feed, one after the other. -/
def feedAll : List Value → List HashWord
  | [] => []
  | item :: rest => feed item ++ feedAll rest

end

/-! ## Texts -/

/-- A text with every occurrence of a character replaced. -/
def replaceChar (c : Char) (replacement : String) (s : String) : String :=
  String.ofList (s.toList.flatMap fun d => if d = c then replacement.toList else [d])

mutual

/-- The text of a value, strings and documents in single quotes. -/
def text : Value → String
  | .null => "NULL"
  | .bool b => if b then "true" else "false"
  | .int n => toString n.toInt
  | .float d => d.plain
  | .str s => "\x27" ++ replaceChar '\x27' "\x27\x27" s ++ "\x27"
  | .json j => "\x27" ++ j.text ++ "\x27"
  | .list items => "(" ++ String.intercalate ", " (texts items) ++ ")"

/-- The texts of a list of values. -/
def texts : List Value → List String
  | [] => []
  | item :: rest => text item :: texts rest

end

/-! ## JSON form -/

mutual

/-- The JSON form of a value. A float without a numeric value becomes null. -/
def toJson : Value → Json
  | .null => .null
  | .bool b => .bool b
  | .int n => .int n.toInt
  | .float d => if d.isFinite then .float d else .null
  | .str s => .str s
  | .json j => j
  | .list items => .arr (toJsonAll items)

/-- The JSON forms of a list of values. -/
def toJsonAll : List Value → List Json
  | [] => []
  | item :: rest => toJson item :: toJsonAll rest

end

/-- Whether a whole number is an integer of 64 bits with sign. -/
def fitsInt (n : Int) : Bool := Int64.minValue.toInt ≤ n && n ≤ Int64.maxValue.toInt

/-- The value of a JSON document: the first kind of value that can hold it. Whole numbers beyond 64
bits with sign become floats; arrays and objects stay documents. -/
def ofJson : Json → Value
  | .null => .null
  | .bool b => .bool b
  | .int n => if fitsInt n then .int (Int64.ofInt n) else .float (Double.ofInt n)
  | .float d => .float d
  | .str s => .str s
  | .arr items => .json (.arr items)
  | .obj members => .json (.obj members)

end Value

/-! ## Conversions -/

/-- Types whose elements can be bound as values. -/
class ToValue (α : Type) where
  toValue : α → Value

export ToValue (toValue)

instance : ToValue Value := ⟨id⟩

instance : ToValue Bool := ⟨.bool⟩

instance : ToValue Int64 := ⟨.int⟩

instance : ToValue Int32 := ⟨fun n => .int n.toInt64⟩

instance : ToValue Double := ⟨.float⟩

instance : ToValue String := ⟨.str⟩

instance : ToValue Json := ⟨.json⟩

instance {α : Type} [ToValue α] : ToValue (List α) := ⟨fun items => .list (items.map toValue)⟩

instance {α : Type} [ToValue α] : ToValue (Option α) :=
  ⟨fun
    | some a => toValue a
    | none => .null⟩

end GraphLoad
