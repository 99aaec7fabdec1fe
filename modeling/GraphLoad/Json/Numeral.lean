/-
Numerals as they are written and the numbers they stand for. A whole number is exact up to 64 bits.
Any other numeral becomes a double: its leading digits that fit 64 bits make the significand, the
decimal exponent is then applied by one multiplication or by divisions, each rounded, and a result
beyond the range is refused.
-/
import GraphLoad.Json.Basic

namespace GraphLoad.Json

/-- A numeral: sign, digits before the point, digits after it, and a signed exponent. -/
structure Numeral where
  negative : Bool
  whole : List Nat
  fraction : Option (List Nat)
  exponent : Option (Bool × List Nat)

/-! ## Digits -/

/-- `n` followed by as many of the digits as stay below `limit`, and the digits left over. -/
def absorb (limit n : Nat) : List Nat → Nat × List Nat
  | [] => (n, [])
  | d :: ds => if n * 10 + d < limit then absorb limit (n * 10 + d) ds else (n, d :: ds)

/-- One more than the largest significand. -/
def significandLimit : Nat := UInt64.size

/-- One more than the largest written exponent that is still counted. -/
def exponentLimit : Nat := Nat.pow 2 31

/-! ## Scaling -/

/-- The largest power of ten that one step applies. -/
def stepExponent : Nat := 308

/-- The double `f · 10 ^ e`, by one rounded operation for exponents up to 308 and by repeated
division by `10 ^ 308` below that; nothing if the result is too large. -/
def scale (f : Double) (e : Int) : Option Double :=
  if e.natAbs ≤ stepExponent then
    if 0 ≤ e then
      let g := f.mul (Double.ofNat (Nat.pow 10 e.natAbs))
      if g.isInfinite then none else some g
    else some (f.div (Double.ofNat (Nat.pow 10 e.natAbs)))
  else if f.isZero then some f
  else if 0 ≤ e then none
  else scale (f.div (Double.ofNat (Nat.pow 10 stepExponent))) (e + stepExponent)
termination_by (-e).toNat
decreasing_by simp only [stepExponent] at *; omega

namespace Numeral

/-- A magnitude with the sign of the numeral. -/
def signed (n : Numeral) (d : Double) : Double := if n.negative then d.neg else d

/-- The significand of the leading digits and the power of ten that goes with it. -/
def parts (n : Numeral) : Nat × Int :=
  let (lead, dropped) := absorb significandLimit 0 n.whole
  let digits := n.fraction.getD []
  let (all, ignored) := absorb significandLimit lead digits
  (all, (dropped.length : Int) - (digits.length - ignored.length : Nat))

/-- The double a numeral stands for. An exponent too large to count makes zero of a small number and
is refused for a large one. -/
def double? (n : Numeral) : Option Double :=
  let (m, e) := n.parts
  match n.exponent with
  | none => (scale (Double.ofNat m) e).map n.signed
  | some (down, ds) =>
    match absorb exponentLimit 0 ds with
    | (x, []) => (scale (Double.ofNat m) (if down then e - x else e + x)).map n.signed
    | (_, _ :: _) => if m ≠ 0 ∧ down = false then none else some (n.signed Double.zero)

/-- The number a numeral stands for: whole if it is written without point and exponent and fits 64
bits, else a float. Minus zero is a float. -/
def number? (n : Numeral) : Option Json :=
  match n.fraction, n.exponent, absorb significandLimit 0 n.whole with
  | none, none, (m, []) =>
    if n.negative then
      if m = 0 ∨ Nat.pow 2 63 < m then some (.float (Double.ofNat m).neg) else some (.int (-m))
    else some (.int m)
  | _, _, _ => n.double?.map .float

end Numeral

end GraphLoad.Json
