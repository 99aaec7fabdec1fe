/-
The bits of a double as sixteen hexadecimal digits. Unlike a decimal, this form keeps the payload of
a NaN and the sign of zero.
-/
import GraphLoad.Number.Double
import GraphLoad.Text.Hex

namespace GraphLoad.Double

/-- The bits as hexadecimal digits. -/
def hex (d : Double) : String := String.ofList (Text.hexDigits d.bits.toNat 16)

/-- The double whose bits are written by sixteen hexadecimal digits. -/
def ofHex? (s : String) : Option Double :=
  if s.length = 16 then (Text.ofHexDigits? s.toList).map fun n => ⟨UInt64.ofNat n⟩ else none

end GraphLoad.Double
