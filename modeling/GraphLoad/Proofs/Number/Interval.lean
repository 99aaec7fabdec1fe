/-
The rounding interval of a double: the numbers between the middles to its two neighbours, with the middles
themselves if its significand is even. Magnitudes that differ have intervals without a common number, so a
number tells the magnitude in whose interval it lies, and with the sign the double.
-/
import GraphLoad.Number.Shortest
import Mathlib.Algebra.Order.Field.Power
import Mathlib.Data.Rat.Cast.Order
import Mathlib.Tactic.Linarith
import Mathlib.Tactic.Positivity
import Mathlib.Tactic.Ring

namespace GraphLoad.Double

variable {a b d : Double} {q : ℚ}

/-! ## Bit fields -/

theorem fraction_eq (d : Double) : d.fraction = d.bits.toNat % 2 ^ 52 := by
  rw [← Nat.and_two_pow_sub_one_eq_mod]
  exact UInt64.toNat_and ..

theorem biasedExponent_eq (d : Double) : d.biasedExponent = d.bits.toNat / 2 ^ 52 % 2 ^ 11 := by
  rw [← Nat.and_two_pow_sub_one_eq_mod, ← Nat.shiftRight_eq_div_pow]
  exact (UInt64.toNat_and ..).trans (by rw [UInt64.toNat_shiftRight]; rfl)

theorem negative_iff (d : Double) : d.negative = true ↔ 2 ^ 63 ≤ d.bits.toNat := by
  have hlt : d.bits.toNat < 2 ^ 64 := d.bits.toNat_lt
  have hshift : (d.bits >>> 63).toNat = d.bits.toNat / 2 ^ 63 := by
    rw [UInt64.toNat_shiftRight, ← Nat.shiftRight_eq_div_pow]
    rfl
  rw [negative, beq_iff_eq, ← UInt64.toNat_inj, hshift]
  show d.bits.toNat / 2 ^ 63 = 1 ↔ _
  omega

/-- The place of a magnitude among all magnitudes. -/
def place (d : Double) : ℕ := d.biasedExponent * 2 ^ 52 + d.fraction

/-- Sign and magnitude make a double. -/
theorem eq_of_place (hsign : a.negative = b.negative) (hplace : a.place = b.place) : a = b := by
  have hnegative : 2 ^ 63 ≤ a.bits.toNat ↔ 2 ^ 63 ≤ b.bits.toNat := by
    rw [← negative_iff, ← negative_iff, hsign]
  have ha : a.bits.toNat < 2 ^ 64 := a.bits.toNat_lt
  have hb : b.bits.toNat < 2 ^ 64 := b.bits.toNat_lt
  rw [place, place, fraction_eq, fraction_eq, biasedExponent_eq, biasedExponent_eq] at hplace
  have hbits : a.bits.toNat = b.bits.toNat := by omega
  cases a
  cases b
  exact congrArg Double.mk (UInt64.toNat_inj.1 hbits)

theorem place_of_isZero (h : d.isZero = true) : d.place = 0 := by
  rw [isZero, Bool.and_eq_true, beq_iff_eq, beq_iff_eq] at h
  rw [place, h.1, h.2, Nat.zero_mul]

/-- The two zeros. -/
theorem eq_of_isZero (h : d.isZero = true) : d = ⟨0⟩ ∨ d = ⟨0x8000000000000000⟩ := by
  cases hsign : d.negative with
  | false => exact .inl (eq_of_place hsign (place_of_isZero h))
  | true => exact .inr (eq_of_place hsign (place_of_isZero h))

theorem fraction_lt (d : Double) : d.fraction < 2 ^ 52 := by
  rw [fraction_eq]
  exact Nat.mod_lt _ (by decide)

theorem significand_eq (d : Double) :
    d.significand = if d.biasedExponent = 0 then d.fraction else d.fraction + 2 ^ 52 := rfl

theorem significand_pos (h : d.isZero = false) : 0 < d.significand := by
  rw [significand_eq]
  split
  · rename_i hbiased
    rw [isZero, hbiased, beq_self_eq_true, Bool.true_and, beq_eq_false_iff_ne] at h
    exact Nat.pos_of_ne_zero h
  · omega

theorem significand_lt (d : Double) : d.significand < 2 ^ 53 := by
  have hlt := d.fraction_lt
  rw [significand_eq]
  split <;> omega

/-! ## The bounds of the interval -/

/-- How many quarters of the last place the lower bound is away. Below a power of two the doubles are half
as far from each other. -/
def margin (d : Double) : ℕ := if d.fraction = 0 ∧ 1 < d.biasedExponent then 1 else 2

/-- A quarter of the last place of a double, in quarters of that of the least double. -/
def quarter (d : Double) : ℕ := 2 ^ (max d.biasedExponent 1 - 1)

/-- The lower bound, in quarters of the least double. -/
def low (d : Double) : ℕ := (4 * d.significand - d.margin) * d.quarter

/-- The upper bound, in quarters of the least double. -/
def high (d : Double) : ℕ := (4 * d.significand + 2) * d.quarter

/-- How many quarters of the least double make one. -/
def grain : ℚ := (2 : ℚ) ^ (1076 : ℤ)

theorem grain_pos : 0 < grain := zpow_pos (by norm_num) _

/-- The number lies in the rounding interval of the magnitude of a double. -/
def Rounds (d : Double) (q : ℚ) : Prop :=
  if d.significand % 2 = 0 then (d.low : ℚ) ≤ q * grain ∧ q * grain ≤ d.high
  else (d.low : ℚ) < q * grain ∧ q * grain < d.high

theorem quarter_pos (d : Double) : 0 < d.quarter := Nat.two_pow_pos _

theorem margin_le (d : Double) : d.margin ≤ 2 := by
  rw [margin]
  split <;> omega

/-- What rounds to a magnitude that is not zero is not zero. -/
theorem Rounds.pos (h : d.Rounds q) (hpos : 0 < d.significand) : 0 < q := by
  have hlow : 0 < d.low := Nat.mul_pos (by have := d.margin_le; omega) d.quarter_pos
  have hle : (d.low : ℚ) ≤ q * grain := by
    unfold Rounds at h
    split at h
    · exact h.1
    · exact h.1.le
  exact pos_of_mul_pos_left ((Nat.cast_pos.2 hlow).trans_le hle) grain_pos.le

/-- The bounds of two magnitudes of one binary order. -/
theorem high_le_low_of_quarter (hquarter : a.quarter = b.quarter) (h : a.significand < b.significand)
    (hmargin : b.margin = 2) :
    a.high ≤ b.low ∧ (a.high = b.low → a.significand % 2 = 1 ∨ b.significand % 2 = 1) := by
  rw [high, low, hquarter, hmargin]
  refine ⟨Nat.mul_le_mul_right _ (by omega), fun heq => ?_⟩
  have hsame := Nat.eq_of_mul_eq_mul_right b.quarter_pos heq
  omega

/-- The bounds of two magnitudes of different binary orders. -/
theorem high_le_low_of_two_quarter (hquarter : 2 * a.quarter ≤ b.quarter)
    (h : 2 ^ 52 ≤ b.significand) (hmargin : b.margin = 1 ∨ 2 ^ 52 < b.significand) :
    a.high ≤ b.low ∧ (a.high = b.low → a.significand % 2 = 1 ∨ b.significand % 2 = 1) := by
  have hlt := a.significand_lt
  have hle := b.margin_le
  have hupper : (4 * a.significand + 2) * a.quarter ≤ (2 ^ 54 - 1) * (2 * a.quarter) := by
    rw [← Nat.mul_assoc]
    exact Nat.mul_le_mul_right _ (by omega)
  have hlower : (2 ^ 54 - 1) * (2 * a.quarter) ≤ (4 * b.significand - b.margin) * b.quarter :=
    Nat.mul_le_mul (by omega) hquarter
  refine ⟨hupper.trans hlower, fun heq => ?_⟩
  rw [high, low] at heq
  have hsame : (4 * a.significand + 2) * a.quarter = (2 ^ 55 - 2) * a.quarter := by
    have hends := le_antisymm hupper (hlower.trans heq.ge)
    rw [hends, ← Nat.mul_assoc]
    norm_num
  have hcount := Nat.eq_of_mul_eq_mul_right a.quarter_pos hsame
  omega

/-- The interval of a magnitude ends where that of a greater one begins or before; an end of both is the
middle between neighbours, of which one has an odd significand. -/
theorem high_le_low (h : a.place < b.place) :
    a.high ≤ b.low ∧ (a.high = b.low → a.significand % 2 = 1 ∨ b.significand % 2 = 1) := by
  have ha := a.fraction_lt
  have hb := b.fraction_lt
  rw [place, place] at h
  have hsa := a.significand_eq
  have hsb := b.significand_eq
  by_cases horder : max a.biasedExponent 1 = max b.biasedExponent 1
  · have hmargin : b.margin = 2 := by
      rw [margin, if_neg]
      rintro ⟨hzero, hone⟩
      omega
    refine high_le_low_of_quarter (by rw [quarter, quarter, horder]) ?_ hmargin
    split at hsa <;> split at hsb <;> omega
  · have hlt : max a.biasedExponent 1 < max b.biasedExponent 1 := by omega
    have hquarter : 2 * a.quarter ≤ b.quarter := by
      rw [quarter, quarter, ← Nat.pow_succ']
      exact Nat.pow_le_pow_right (by decide) (by omega)
    rw [if_neg (by omega)] at hsb
    refine high_le_low_of_two_quarter hquarter (by omega) ?_
    rw [margin]
    split <;> omega

/-- A number lies in the interval of one magnitude at most. -/
theorem place_eq_of_rounds (ha : a.Rounds q) (hb : b.Rounds q) : a.place = b.place := by
  have hnot : ∀ {a b : Double}, a.Rounds q → b.Rounds q → ¬a.place < b.place := by
    intro a b ha hb hlt
    obtain ⟨hle, hodd⟩ := high_le_low hlt
    have hcast : (a.high : ℚ) ≤ b.low := by exact_mod_cast hle
    unfold Rounds at ha hb
    split at ha <;> split at hb
    · -- both intervals have their ends, so these are not one
      have hends : (a.high : ℚ) = b.low := le_antisymm hcast (hb.1.trans ha.2)
      have hends' : a.high = b.low := by exact_mod_cast hends
      have := hodd hends'
      omega
    all_goals linarith [ha.1, ha.2, hb.1, hb.2]
  have hab := hnot ha hb
  have hba := hnot hb ha
  omega

end GraphLoad.Double
