/-
The shortest decimal that reads back as a given double: of all decimals with the fewest digits in
the interval of numbers that round to it, the nearest one. The search is exact, on the two
neighbours of the number on the grid of 1, 2, … 17 digits.
-/
import GraphLoad.Number.Double

namespace GraphLoad

/-- The number `digits · 10 ^ exponent`. -/
structure Decimal where
  digits : Nat
  exponent : Int
deriving DecidableEq

namespace Decimal

/-- How a number half-way between two decimals of the fewest digits is rounded. -/
inductive Tie
  | up
  | even
deriving DecidableEq

/-- The same number without the zeros its digits end in. -/
def strip (d : Decimal) : Decimal :=
  if _ : d.digits = 0 then d
  else if d.digits % 10 = 0 then strip ⟨d.digits / 10, d.exponent + 1⟩
  else d
termination_by d.digits
decreasing_by omega

/-- How many decimal digits a number has. -/
def width (n : Nat) : Nat := (Nat.toDigits 10 n).length

/-- The exponent `p` with `10 ^ (p - 1) ≤ num / den < 10 ^ p`, of positive numbers. -/
def magnitude (num den : Nat) : Int :=
  let p : Int := (width num : Int) - width den
  if num * Nat.pow 10 (-p).toNat < den * Nat.pow 10 p.toNat then p else p + 1

/-- A number between its two rounding bounds, all in quarters of the last binary place and brought
to whole numbers: the grid of step `10 ^ k` has a point at each multiple of `step`. -/
structure Window where
  low : Nat
  value : Nat
  high : Nat
  step : Nat
  closed : Bool

/-- The rounding interval of a finite double on the grid of step `10 ^ k`. Below a power of two the
next double is half as far, and the bounds belong to a double with an even significand. -/
def Window.of (d : Double) (k : Int) : Window :=
  let m := d.significand
  let e := d.exponent - 2
  let unit := Nat.pow 10 (-k).toNat * Nat.pow 2 e.toNat
  let below := if d.fraction = 0 ∧ 1 < d.biasedExponent then 1 else 2
  { low := (4 * m - below) * unit
    value := 4 * m * unit
    high := (4 * m + 2) * unit
    step := Nat.pow 10 k.toNat * Nat.pow 2 (-e).toNat
    closed := m % 2 == 0 }

/-- Whether grid point `c` lies in the interval. -/
def Window.holds (w : Window) (c : Nat) : Bool :=
  if w.closed then w.low ≤ c * w.step && c * w.step ≤ w.high
  else w.low < c * w.step && c * w.step < w.high

/-- The grid point in the interval that is nearest to the number, if there is one. -/
def Window.nearest (w : Window) (tie : Tie) : Option Nat :=
  let c := w.value / w.step
  match w.holds c, w.holds (c + 1) with
  | false, false => none
  | true, false => some c
  | false, true => some (c + 1)
  | true, true =>
    let middle := (2 * c + 1) * w.step
    if 2 * w.value < middle then some c
    else if middle < 2 * w.value then some (c + 1)
    else if tie = .even ∧ c % 2 = 0 then some c
    else some (c + 1)

/-- The shortest decimal that reads back as the magnitude of a finite double. -/
def shortest (tie : Tie) (d : Double) : Decimal :=
  if d.isZero then ⟨0, 0⟩
  else
    let p := magnitude d.ratio.1 d.ratio.2
    let hit := (List.range 17).findSome? fun n =>
      let k := p - (n + 1 : Nat)
      ((Window.of d k).nearest tie).map fun c => strip ⟨c, k⟩
    hit.getD ⟨0, 0⟩

end Decimal

end GraphLoad
