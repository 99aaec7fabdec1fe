/-
Primary keys and the objects they identify. Two keys are one when their parts are the same one by
one and feed the same words to a hash.
-/
import GraphLoad.OrderedMap
import GraphLoad.Value

namespace GraphLoad

/-- The values of a primary key, in the order of its fields. -/
structure Key where
  parts : List Value

namespace Key

/-- Whether every part is null, so that no row stands behind the key. -/
def isNull (k : Key) : Bool := k.parts.all Value.isNull

/-- Sameness, part by part. -/
def sameAs (a b : Key) : Bool := Value.sameAll a.parts b.parts

/-- What a key feeds to a hash: the number of its parts, then the parts. -/
def feed (k : Key) : List Value.HashWord :=
  .word (UInt64.ofNat k.parts.length) :: Value.feedAll k.parts

/-- Whether two keys find each other in a table of hashes. -/
def meets (a b : Key) : Bool := a.sameAs b && a.feed == b.feed

/-- A part of a key; strings stand without quotes. -/
def partText : Value → String
  | .str s => s
  | v => v.text

/-- The parts of a key between commas. -/
def text (k : Key) : String := String.intercalate "," (k.parts.map partText)

end Key

end GraphLoad
