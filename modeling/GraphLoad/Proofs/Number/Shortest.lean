/-
The shortest decimal of a magnitude lies in its rounding interval: every grid point the search takes does,
and with seventeen digits the grid is fine enough that it takes one. So magnitudes with one shortest decimal
are one.
-/
import GraphLoad.Proofs.Number.Interval
import Mathlib.Tactic.FieldSimp

namespace GraphLoad.Decimal

open Double

variable {d : Double} {k : ℤ} {c num den : ℕ} {tie : Tie}

/-- The number a decimal stands for. -/
def value (d : Decimal) : ℚ := d.digits * (10 : ℚ) ^ d.exponent

theorem value_strip (d : Decimal) : d.strip.value = d.value := by
  fun_induction strip d with
  | case1 => rfl
  | case2 d _ hzero ih =>
    obtain ⟨n, hn⟩ := Nat.dvd_of_mod_eq_zero hzero
    rw [ih, value, value, hn, Nat.mul_div_cancel_left n (by decide), zpow_add_one₀ (by norm_num)]
    push_cast
    ring
  | case3 => rfl

/-! ## Windows -/

theorem pow_toNat {x : ℚ} (hx : x ≠ 0) (n : ℤ) : x ^ n.toNat = x ^ n * x ^ (-n).toNat := by
  rw [← zpow_natCast, ← zpow_natCast, ← zpow_add₀ hx]
  congr 1
  omega

/-- A quarter of the last place. -/
theorem two_zpow_exponent (d : Double) : (2 : ℚ) ^ (d.exponent - 2) * grain = d.quarter := by
  rw [grain, ← zpow_add₀ (by norm_num), quarter, Nat.cast_pow, Nat.cast_ofNat, ← zpow_natCast,
    Double.exponent]
  congr 1
  omega

/-- A window shows the interval and the grid on one scale. -/
theorem window_scale (d : Double) (k : ℤ) : ∃ s : ℚ, 0 < s ∧
    ((Window.of d k).step : ℚ) = s * ((10 : ℚ) ^ k * grain) ∧
    ((Window.of d k).low : ℚ) = s * d.low ∧ ((Window.of d k).high : ℚ) = s * d.high ∧
    ((Window.of d k).value : ℚ) = s * ((4 * d.significand : ℕ) * d.quarter) := by
  have hgrain := grain_pos
  refine ⟨10 ^ (-k).toNat * 2 ^ (-(d.exponent - 2)).toNat / grain, by positivity, ?_⟩
  have hunit : (Nat.pow 10 (-k).toNat * Nat.pow 2 (d.exponent - 2).toNat : ℕ) =
      10 ^ (-k).toNat * 2 ^ (-(d.exponent - 2)).toNat / grain * (d.quarter : ℚ) := by
    rw [← two_zpow_exponent]
    show ((10 ^ (-k).toNat * 2 ^ (d.exponent - 2).toNat : ℕ) : ℚ) = _
    push_cast
    rw [pow_toNat (by norm_num) (d.exponent - 2)]
    field_simp
  have hstep : (Nat.pow 10 k.toNat * Nat.pow 2 (-(d.exponent - 2)).toNat : ℕ) =
      10 ^ (-k).toNat * 2 ^ (-(d.exponent - 2)).toNat / grain * ((10 : ℚ) ^ k * grain) := by
    show ((10 ^ k.toNat * 2 ^ (-(d.exponent - 2)).toNat : ℕ) : ℚ) = _
    push_cast
    rw [pow_toNat (by norm_num) k]
    field_simp
  refine ⟨hstep, ?_, ?_, ?_⟩
  · rw [Window.of, low, Nat.cast_mul, hunit, Nat.cast_mul, margin]
    ring
  · rw [Window.of, high, Nat.cast_mul, hunit, Nat.cast_mul]
    ring
  · rw [Window.of, Nat.cast_mul, hunit, Nat.cast_mul]
    ring

/-- A grid point is held by the window if it lies in the interval. -/
theorem holds_iff : (Window.of d k).holds c = true ↔ d.Rounds (c * (10 : ℚ) ^ k) := by
  obtain ⟨s, hs, hstep, hlow, hhigh, -⟩ := window_scale d k
  have hpoint : ((c * (Window.of d k).step : ℕ) : ℚ) = s * (c * (10 : ℚ) ^ k * grain) := by
    rw [Nat.cast_mul, hstep]
    ring
  have hclosed : (Window.of d k).closed = true ↔ d.significand % 2 = 0 := beq_iff_eq
  by_cases heven : d.significand % 2 = 0
  · rw [Window.holds, if_pos (hclosed.2 heven), Rounds, if_pos heven, Bool.and_eq_true,
      decide_eq_true_iff, decide_eq_true_iff, ← @Nat.cast_le ℚ, ← @Nat.cast_le ℚ, hpoint,
      hlow, hhigh, mul_le_mul_iff_right₀ hs, mul_le_mul_iff_right₀ hs]
  · rw [Window.holds, if_neg (mt hclosed.1 heven), Rounds, if_neg heven, Bool.and_eq_true,
      decide_eq_true_iff, decide_eq_true_iff, ← @Nat.cast_lt ℚ, ← @Nat.cast_lt ℚ, hpoint,
      hlow, hhigh, mul_lt_mul_iff_right₀ hs, mul_lt_mul_iff_right₀ hs]

/-- A window takes what it holds, and takes one of the two neighbours of the number if it holds one. -/
theorem Window.nearest_cases (w : Window) (tie : Tie) :
    (∃ c, w.nearest tie = some c ∧ w.holds c = true) ∨ w.nearest tie = none ∧
      w.holds (w.value / w.step) = false ∧ w.holds (w.value / w.step + 1) = false := by
  rw [Window.nearest]
  cases hbelow : w.holds (w.value / w.step) <;> cases habove : w.holds (w.value / w.step + 1) <;>
    dsimp only
  case false.false => exact .inr ⟨rfl, rfl, rfl⟩
  case false.true => exact .inl ⟨_, rfl, habove⟩
  case true.false => exact .inl ⟨_, rfl, hbelow⟩
  case true.true =>
    refine .inl ?_
    split
    · exact ⟨_, rfl, hbelow⟩
    · split
      · exact ⟨_, rfl, habove⟩
      · split
        · exact ⟨_, rfl, hbelow⟩
        · exact ⟨_, rfl, habove⟩

/-! ## Seventeen digits -/

/-- A grid that is finer than the number by sixteen digits has a point in the interval. -/
theorem holds_of_fine (hpos : 0 < d.significand)
    (hfine : 10 ^ 16 * (Window.of d k).step ≤ (Window.of d k).value) :
    (Window.of d k).holds ((Window.of d k).value / (Window.of d k).step) = true ∨
      (Window.of d k).holds ((Window.of d k).value / (Window.of d k).step + 1) = true := by
  -- all numbers are counted in one unit: `m` is the significand in that unit
  obtain ⟨unit, hunit, hlow, hvalue, hhigh⟩ : ∃ unit, 0 < unit ∧
      (Window.of d k).low = (4 * d.significand - d.margin) * unit ∧
      (Window.of d k).value = 4 * d.significand * unit ∧
      (Window.of d k).high = (4 * d.significand + 2) * unit :=
    ⟨_, Nat.mul_pos (Nat.pow_pos (by decide)) (Nat.pow_pos (by decide)), rfl, rfl, rfl⟩
  have hstep : 0 < (Window.of d k).step :=
    Nat.mul_pos (Nat.pow_pos (by decide)) (Nat.pow_pos (by decide))
  have hm : d.significand * unit ≤ (2 ^ 53 - 1) * unit :=
    Nat.mul_le_mul_right _ (by have := d.significand_lt; omega)
  have hmargin : d.margin = 2 ∨ d.margin = 1 ∧ d.significand * unit = 2 ^ 52 * unit := by
    rw [margin]
    split
    · rename_i h
      refine .inr ⟨rfl, ?_⟩
      rw [significand_eq, if_neg (by omega), h.1, Nat.zero_add]
    · exact .inl rfl
  have hone : unit ≤ d.significand * unit := Nat.le_mul_of_pos_left _ hpos
  rw [Nat.sub_mul] at hlow
  rw [Nat.add_mul] at hhigh
  rw [Nat.mul_assoc] at hlow hvalue hhigh
  generalize d.significand * unit = m at *
  have hsplit := Nat.div_add_mod' (Window.of d k).value (Window.of d k).step
  have hrest := Nat.mod_lt (Window.of d k).value hstep
  rw [Window.holds, Window.holds, Nat.add_mul, Nat.one_mul]
  generalize (Window.of d k).value / (Window.of d k).step * (Window.of d k).step = point at *
  -- the nearer neighbour is less than half a step away
  have hnear : (Window.of d k).low < point ∧ point < (Window.of d k).high ∨
      (Window.of d k).low < point + (Window.of d k).step ∧
        point + (Window.of d k).step < (Window.of d k).high := by
    rcases hmargin with hmargin | ⟨hmargin, hm⟩ <;> rw [hmargin] at hlow <;> omega
  refine hnear.imp (fun h => ?_) fun h => ?_ <;>
    split <;> simp only [Bool.and_eq_true, decide_eq_true_iff] <;> omega

theorem lt_pow_width (n : ℕ) : n < 10 ^ width n :=
  (Nat.length_toDigits_le_iff (by decide) Nat.length_toDigits_pos).1 le_rfl

theorem pow_width_le {n : ℕ} (hpos : 0 < n) : 10 ^ (width n - 1) ≤ n := by
  by_contra hlt
  rcases Nat.eq_zero_or_pos (width n - 1) with hone | hmore
  · rw [hone] at hlt
    omega
  · have := (Nat.length_toDigits_le_iff (by decide) hmore).2 (not_le.1 hlt)
    rw [← width] at this
    omega

/-- The magnitude of a ratio bounds it from below. -/
theorem zpow_magnitude_le (hnum : 0 < num) : (10 : ℚ) ^ (magnitude num den - 1) * den ≤ num := by
  have hten : (0 : ℚ) < 10 := by norm_num
  rw [magnitude]
  generalize hp : (width num : ℤ) - width den = p
  -- by its digits the ratio is known but for one place
  have hwidth : (10 : ℚ) ^ (p - 1) * den ≤ num := by
    have hlower : ((10 ^ (width num - 1) : ℕ) : ℚ) ≤ num := Nat.cast_le.2 (pow_width_le hnum)
    have hupper : (den : ℚ) ≤ (10 ^ width den : ℕ) := Nat.cast_le.2 (lt_pow_width den).le
    have hpos : 0 < width num := Nat.length_toDigits_pos
    rw [Nat.cast_pow, ← zpow_natCast] at hlower hupper
    calc (10 : ℚ) ^ (p - 1) * den
        ≤ (10 : ℚ) ^ (p - 1) * (10 : ℚ) ^ (width den : ℤ) := by gcongr; exact hupper
      _ = (10 : ℚ) ^ ((width num - 1 : ℕ) : ℤ) := by
          rw [← zpow_add₀ hten.ne']
          congr 1
          omega
      _ ≤ num := hlower
  split
  · exact hwidth
  · rename_i hle
    have hcast : ((den * 10 ^ p.toNat : ℕ) : ℚ) ≤ (num * 10 ^ (-p).toNat : ℕ) :=
      Nat.cast_le.2 (not_lt.1 hle)
    push_cast at hcast
    rw [pow_toNat hten.ne', ← mul_assoc] at hcast
    rw [add_sub_cancel_right, mul_comm]
    exact le_of_mul_le_mul_right hcast (by positivity)

theorem ratio_eq (d : Double) : (d.ratio.1 : ℚ) = d.significand * 2 ^ d.exponent * d.ratio.2 := by
  show ((d.significand * 2 ^ d.exponent.toNat : ℕ) : ℚ) = _ * (2 ^ (-d.exponent).toNat : ℕ)
  push_cast
  rw [pow_toNat (by norm_num), mul_assoc]

/-- The grid of seventeen digits. -/
theorem fine_of_seventeen (h : d.isZero = false) (hk : k + 17 = magnitude d.ratio.1 d.ratio.2) :
    10 ^ 16 * (Window.of d k).step ≤ (Window.of d k).value := by
  have hnum : 0 < d.ratio.1 := Nat.mul_pos (significand_pos h) (Nat.pow_pos (by decide))
  have hden : (0 : ℚ) < d.ratio.2 := Nat.cast_pos.2 (Nat.pow_pos (by decide))
  obtain ⟨s, hs, hstep, -, -, hvalue⟩ := window_scale d k
  have hbound : (10 : ℚ) ^ (16 + k) ≤ d.significand * 2 ^ d.exponent := by
    have := @zpow_magnitude_le _ d.ratio.2 hnum
    rw [ratio_eq, ← hk, show k + 17 - 1 = 16 + k by omega] at this
    exact le_of_mul_le_mul_right this hden
  rw [← @Nat.cast_le ℚ, Nat.cast_mul, hstep, hvalue, ← two_zpow_exponent]
  calc ((10 ^ 16 : ℕ) : ℚ) * (s * (10 ^ k * grain))
      = s * grain * (10 : ℚ) ^ (16 + k) := by
        rw [zpow_add₀ (by norm_num)]
        push_cast
        ring
    _ ≤ s * grain * (d.significand * 2 ^ d.exponent) :=
        mul_le_mul_of_nonneg_left hbound (mul_pos hs grain_pos).le
    _ = s * ((4 * d.significand : ℕ) * (2 ^ (d.exponent - 2) * grain)) := by
        rw [zpow_sub₀ (by norm_num)]
        push_cast
        ring

/-! ## The search -/

/-- The shortest decimal of a magnitude lies in its rounding interval. -/
theorem rounds_shortest (tie : Tie) (h : d.isZero = false) : d.Rounds (shortest tie d).value := by
  rw [shortest, if_neg (by rw [h]; decide)]
  dsimp only
  generalize hp : magnitude d.ratio.1 d.ratio.2 = p
  have hfound : ∀ {n r}, ((Window.of d (p - (n + 1 : ℕ))).nearest tie).map
      (fun c => strip ⟨c, p - (n + 1 : ℕ)⟩) = some r → d.Rounds r.value := by
    intro n r hr
    obtain ⟨c, hc, rfl⟩ := Option.map_eq_some_iff.1 hr
    rw [value_strip]
    rcases (Window.of d (p - (n + 1 : ℕ))).nearest_cases tie with ⟨c', hc', hholds⟩ | ⟨hnone, -⟩
    · rw [hc'] at hc
      cases hc
      exact holds_iff.1 hholds
    · rw [hnone] at hc
      cases hc
  cases hsearch : (List.range 17).findSome? fun n =>
      ((Window.of d (p - (n + 1 : ℕ))).nearest tie).map fun c => strip ⟨c, p - (n + 1 : ℕ)⟩ with
  | some r =>
    obtain ⟨n, -, hr⟩ := List.exists_of_findSome?_eq_some hsearch
    exact hfound hr
  | none =>
    -- the grid of seventeen digits cannot have been left without a point
    have hlast := List.findSome?_eq_none_iff.1 hsearch 16 (by decide)
    rw [Option.map_eq_none_iff] at hlast
    have hseventeen : p - (16 + 1 : ℕ) + 17 = magnitude d.ratio.1 d.ratio.2 := by
      rw [hp]
      omega
    have hholds := holds_of_fine (significand_pos h) (fine_of_seventeen h hseventeen)
    rcases (Window.of d (p - (16 + 1 : ℕ))).nearest_cases tie with ⟨c, hc, -⟩ | ⟨-, hnot⟩
    · rw [hlast] at hc
      cases hc
    · rw [hnot.1, hnot.2] at hholds
      rcases hholds with hholds | hholds <;> cases hholds

/-- A tenth is no double; the nearest one is printed by one digit. -/
example : shortest .even ⟨0x3FB999999999999A⟩ = ⟨1, -1⟩ := by decide +kernel

theorem value_shortest_pos (tie : Tie) (h : d.isZero = false) : 0 < (shortest tie d).value :=
  (rounds_shortest tie h).pos (significand_pos h)

/-- Magnitudes with one shortest decimal are one. -/
theorem place_eq_of_shortest {a b : Double} {s t : Tie}
    (h : (shortest s a).value = (shortest t b).value) : a.place = b.place := by
  have hzero : ∀ {d : Double} (tie : Tie), d.isZero = true →
      (shortest tie d).value = 0 ∧ d.place = 0 := by
    intro d tie hd
    refine ⟨?_, place_of_isZero hd⟩
    rw [shortest, if_pos hd, value, Nat.cast_zero, zero_mul]
  cases ha : a.isZero <;> cases hb : b.isZero
  · exact place_eq_of_rounds (rounds_shortest s ha) (h ▸ rounds_shortest t hb)
  · exact absurd (h.trans (hzero t hb).1) (value_shortest_pos s ha).ne'
  · exact absurd (h.symm.trans (hzero s ha).1) (value_shortest_pos t hb).ne'
  · rw [(hzero s ha).2, (hzero t hb).2]

end GraphLoad.Decimal
