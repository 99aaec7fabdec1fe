/-
Binary floating-point numbers of 64 bits as their bit patterns: the fields of the layout, the
numeric comparison (no NaN equals itself, the two zeros are equal), and the nearest double of a
ratio of natural numbers, ties to even, from which multiplication and division are had.
-/

namespace GraphLoad

/-- A double, as the bits of its IEEE 754 layout. -/
structure Double where
  bits : UInt64
deriving DecidableEq

namespace Double

/-! ## Bit fields -/

/-- The sign bit. -/
def negative (d : Double) : Bool := d.bits >>> 63 == 1

/-- The exponent field, 0 to 2047. -/
def biasedExponent (d : Double) : Nat := ((d.bits >>> 52) &&& 0x7FF).toNat

/-- The fraction field, below `2 ^ 52`. -/
def fraction (d : Double) : Nat := (d.bits &&& 0xFFFFFFFFFFFFF).toNat

/-- All exponent bits set and a fraction. -/
def isNaN (d : Double) : Bool := d.biasedExponent == 2047 && d.fraction != 0

/-- All exponent bits set and no fraction. -/
def isInfinite (d : Double) : Bool := d.biasedExponent == 2047 && d.fraction == 0

/-- Neither infinite nor a NaN. -/
def isFinite (d : Double) : Bool := d.biasedExponent != 2047

/-- One of the two zeros. -/
def isZero (d : Double) : Bool := d.biasedExponent == 0 && d.fraction == 0

/-- The whole number `m` of a finite magnitude `m · 2 ^ e`. -/
def significand (d : Double) : Nat :=
  if d.biasedExponent = 0 then d.fraction else d.fraction + Nat.pow 2 52

/-- The power `e` of a finite magnitude `m · 2 ^ e`. -/
def exponent (d : Double) : Int := (max d.biasedExponent 1 : Nat) - 1075

/-- Numeric equality: a NaN equals nothing, and the zeros equal each other. -/
def numEq (a b : Double) : Bool :=
  !a.isNaN && !b.isNaN && (a.bits == b.bits || (a.isZero && b.isZero))

/-- The double with the other sign. -/
def neg (d : Double) : Double := ⟨d.bits ^^^ 0x8000000000000000⟩

/-- Positive zero. -/
def zero : Double := ⟨0⟩

/-! ## Rounding -/

/-- The whole number nearest to `num / den`; a half goes to the even neighbour. -/
def roundHalfEven (num den : Nat) : Nat :=
  let q := num / den
  let r := num % den
  if 2 * r < den then q
  else if den < 2 * r then q + 1
  else if q % 2 = 0 then q else q + 1

/-- The exponent `t` with `2 ^ t ≤ num / den < 2 ^ (t + 1)`, of positive numbers. -/
def log2Ratio (num den : Nat) : Int :=
  let t : Int := (num.log2 : Int) - den.log2
  if den * Nat.pow 2 t.toNat ≤ num * Nat.pow 2 (-t).toNat then t else t - 1

/-- The double nearest to `num / den`, ties to even; beyond the range it is infinite. The bits of
the exponent and of the significand add up, so that a carry in rounding moves to the next exponent.
-/
def ofRatio (num den : Nat) : Double :=
  if num = 0 then zero
  else
    let e := max (log2Ratio num den - 52) (-1074)
    let q := roundHalfEven (num * Nat.pow 2 (-e).toNat) (den * Nat.pow 2 e.toNat)
    ⟨UInt64.ofNat (min ((e + 1074).toNat * Nat.pow 2 52 + q) (2047 * Nat.pow 2 52))⟩

/-- The double nearest to a natural number. -/
def ofNat (n : Nat) : Double := ofRatio n 1

/-- The double nearest to an integer. -/
def ofInt (n : Int) : Double :=
  if n < 0 then (ofNat n.natAbs).neg else ofNat n.natAbs

/-- Numerator and denominator of a finite magnitude. -/
def ratio (d : Double) : Nat × Nat :=
  (d.significand * Nat.pow 2 d.exponent.toNat, Nat.pow 2 (-d.exponent).toNat)

/-- The product of two finite magnitudes. -/
def mul (a b : Double) : Double :=
  ofRatio (a.ratio.1 * b.ratio.1) (a.ratio.2 * b.ratio.2)

/-- The quotient of two finite magnitudes, the second not zero. -/
def div (a b : Double) : Double :=
  ofRatio (a.ratio.1 * b.ratio.2) (a.ratio.2 * b.ratio.1)

end Double

end GraphLoad
