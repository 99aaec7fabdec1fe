/-
The two ways a double is written out. Plain notation never uses an exponent and writes no fraction
for a whole number; scientific notation keeps a fraction or an exponent, so that the text of a
double never looks like that of an integer.
-/
import GraphLoad.Number.Shortest

namespace GraphLoad

namespace Decimal

/-- A run of zeros. -/
def zeros (n : Nat) : String := String.ofList (List.replicate n '0')

/-- The digits of a natural number. -/
def digitText (n : Nat) : String := String.ofList (Nat.toDigits 10 n)

/-- A text with a point after its first `n` characters. -/
def pointAfter (n : Nat) (s : String) : String :=
  String.ofList (s.toList.take n ++ '.' :: s.toList.drop n)

/-- Positional text: the digits, with zeros up to the point where they do not reach it. -/
def positional (d : Decimal) : String :=
  let text := digitText d.digits
  let point : Int := width d.digits + d.exponent
  if 0 ≤ d.exponent then text ++ zeros d.exponent.toNat
  else if 0 < point then pointAfter point.toNat text
  else "0." ++ zeros (-point).toNat ++ text

/-- An exponent with its sign. -/
def exponentText (e : Int) : String := (if e < 0 then "e-" else "e+") ++ digitText e.natAbs

/-- Text with an exponent: one digit before the point, and no point after a lone digit. -/
def exponential (d : Decimal) : String :=
  let text := digitText d.digits
  let mantissa := if width d.digits ≤ 1 then text else pointAfter 1 text
  mantissa ++ exponentText ((width d.digits : Int) + d.exponent - 1)

/-- Scientific notation is positional while the point falls within 16 digits to the right or five
zeros to the left of the digits; a whole number then ends in `.0`. -/
def scientific (d : Decimal) : String :=
  let point : Int := width d.digits + d.exponent
  if point ≤ 16 ∧ -5 < point then
    if 0 ≤ d.exponent then positional d ++ ".0" else positional d
  else exponential d

end Decimal

namespace Double

/-- The sign in front of a magnitude. -/
def sign (d : Double) : String := if d.negative then "-" else ""

/-- Plain notation; of two shortest decimals equally near the larger is taken. -/
def plain (d : Double) : String :=
  if d.isNaN then "NaN"
  else if d.isInfinite then d.sign ++ "inf"
  else d.sign ++ (Decimal.shortest .up d).positional

/-- Scientific notation of a finite double; of two shortest decimals equally near the even one is
taken. -/
def scientific (d : Double) : String :=
  d.sign ++ (Decimal.shortest .even d).scientific

end Double

end GraphLoad
