import Mathlib.Algebra.Order.Field.Power
import TimingChart.Proofs.Binary64.Intervals
import TimingChart.Proofs.Decimal.ReadBack

/-! # Decimal grids

The search for a shortest decimal starts at the power of ten above a magnitude and tries one grid
after the other. A neighbour of the magnitude reads back wherever anything on the grid does, and on
the grid of seventeen digits at the latest. -/

namespace TimingChart

namespace Decimal

-- Nothing here unfolds this large number.
attribute [local irreducible] Magnitude.unitsPerOne

/-! ## Powers of ten -/

theorem step_eq_zpow (e : Int) : step e = (10 : Rat) ^ e := by
  obtain ⟨places, rfl | rfl⟩ := e.eq_nat_or_neg
  · rw [step, if_neg (by omega), Int.toNat_natCast, zpow_natCast]
    push_cast
    rfl
  · rw [step_neg, Rat.mkRat_eq_div, zpow_neg, zpow_natCast]
    push_cast
    rw [one_div]

theorem step_pos (e : Int) : 0 < step e := by
  rw [step_eq_zpow]
  exact zpow_pos (by norm_num) e

/-- Steps of a finer grid make up one of a coarser grid. -/
theorem step_eq_mul (e : Int) (places : Nat) : step e = 10 ^ places * step (e - places) := by
  rw [step_eq_zpow, step_eq_zpow, ← zpow_natCast, ← zpow_add₀ (by norm_num)]
  congr 1
  omega

theorem step_mono {e e' : Int} (h : e ≤ e') : step e ≤ step e' := by
  rw [step_eq_zpow, step_eq_zpow]
  exact zpow_le_zpow_right₀ (by norm_num) h

/-- A positive number of so many digits. -/
theorem exists_length_toDigits {n : Nat} (hn : 0 < n) :
    ∃ places, (Nat.toDigits 10 n).length = places + 1 ∧
      10 ^ places ≤ n ∧ n < 10 ^ (places + 1) := by
  have hne : (Nat.toDigits 10 n).length ≠ 0 := Nat.length_toDigits_pos.ne'
  obtain ⟨places, hplaces⟩ := Nat.exists_eq_succ_of_ne_zero hne
  have hlt := (Nat.length_toDigits_le_iff (by decide : 1 < 10) (Nat.succ_pos places)).mp hplaces.le
  refine ⟨places, hplaces, ?_, hlt⟩
  rcases Nat.eq_zero_or_pos places with rfl | hpos
  · exact hn
  · by_contra hbelow
    have hle := (Nat.length_toDigits_le_iff (by decide : 1 < 10) hpos).mpr (Nat.not_le.mp hbelow)
    omega

/-- The power of ten above a positive quotient is the first one. -/
theorem exponentAbove_spec {num den : Nat} (hnum : 0 < num) (hden : 0 < den) :
    step (exponentAbove num den - 1) ≤ (num : Rat) / den ∧
      (num : Rat) / den < step (exponentAbove num den) := by
  have hden' : (0 : Rat) < den := by exact_mod_cast hden
  rw [exponentAbove, le_div_iff₀ hden', div_lt_iff₀ hden']
  split
  next hle =>
    obtain ⟨places, hlength, hlow, hhigh⟩ := exists_length_toDigits (Nat.div_pos hle hden)
    rw [Nat.le_div_iff_mul_le hden] at hlow
    rw [Nat.div_lt_iff_lt_mul hden] at hhigh
    rw [hlength, step_eq_zpow, step_eq_zpow, Nat.cast_succ, add_sub_cancel_right, ← Nat.cast_succ,
      zpow_natCast, zpow_natCast]
    exact ⟨by exact_mod_cast hlow, by exact_mod_cast hhigh⟩
  next hlt =>
    have hpos : 0 < (den - 1) / num := Nat.div_pos (by omega) hnum
    obtain ⟨places, hlength, hlow, hhigh⟩ := exists_length_toDigits hpos
    rw [Nat.le_div_iff_mul_le hnum] at hlow
    rw [Nat.div_lt_iff_lt_mul hnum] at hhigh
    have hfine : -(places : Int) - 1 = -(places + 1 : Nat) := by omega
    rw [hlength, Nat.add_sub_cancel, hfine, step_eq_zpow, step_eq_zpow, zpow_neg, zpow_neg,
      zpow_natCast, zpow_natCast, inv_mul_le_iff₀ (by positivity), lt_inv_mul_iff₀ (by positivity)]
    have hden : den ≤ 10 ^ (places + 1) * num := by omega
    have hnum : 10 ^ places * num < den := by omega
    exact ⟨by exact_mod_cast hden, by exact_mod_cast hnum⟩

variable {m : Magnitude}

/-- The power of ten above a magnitude. -/
theorem exponentAbove_units (hm : m.significand ≠ 0) :
    step (exponentAbove m.units Magnitude.unitsPerOne - 1) ≤ m.toRat ∧
      m.toRat < step (exponentAbove m.units Magnitude.unitsPerOne) := by
  have hunits : 0 < m.units := Nat.mul_pos (Nat.pos_of_ne_zero hm) (Nat.two_pow_pos _)
  rw [m.toRat_eq_div]
  exact exponentAbove_spec hunits Magnitude.unitsPerOne_pos

/-! ## Neighbours -/

/-- The last number of steps that does not lead beyond a magnitude. -/
def stepsBelow (m : Magnitude) (e : Int) : Nat := (m.toRat / step e).floor.toNat

theorem stepsBelow_le (m : Magnitude) (e : Int) : stepsBelow m e * step e ≤ m.toRat := by
  have hpos : 0 ≤ m.toRat / step e := div_nonneg m.toRat_nonneg (step_pos e).le
  have hfloor : (stepsBelow m e : Rat) ≤ m.toRat / step e := Nat.floor_le hpos
  rwa [le_div_iff₀ (step_pos e)] at hfloor

theorem lt_stepsBelow_succ (m : Magnitude) (e : Int) :
    m.toRat < (stepsBelow m e + 1 : Nat) * step e := by
  have hfloor : m.toRat / step e < stepsBelow m e + 1 := Nat.lt_floor_add_one _
  rw [div_lt_iff₀ (step_pos e)] at hfloor
  push_cast
  exact hfloor

theorem neighbour?_digits_le {e : Int} {d : Decimal} (h : neighbour? m e = some d) :
    d.digits ≤ stepsBelow m e + 1 := by
  simp only [neighbour?] at h
  split at h
  next =>
    obtain rfl := Option.some.inj h
    split
    · exact Nat.le_succ _
    · exact Nat.le_refl _
  next =>
    rw [← Option.some.inj h]
    exact Nat.le_succ _
  next =>
    rw [← Option.some.inj h]
    exact Nat.le_refl _
  next => cases h

/-- If anything on a grid reads back, so does what lies between it and the magnitude. -/
theorem exists_neighbour? (hm : m.significand ≠ 0) {e : Int} {n : Nat}
    (h : m.readsBack (n * step e)) : ∃ d, neighbour? m e = some d := by
  have hself := Magnitude.readsBack_toRat hm
  have hone : m.readsBack (toRat ⟨stepsBelow m e, e⟩) ∨
      m.readsBack (toRat ⟨stepsBelow m e + 1, e⟩) := by
    rcases Nat.lt_or_ge (stepsBelow m e) n with hlt | hge
    · have hle : ((stepsBelow m e + 1 : Nat) : Rat) ≤ n := by exact_mod_cast hlt
      exact .inr (Magnitude.readsBack_of_between hself h (lt_stepsBelow_succ m e).le
        (mul_le_mul_of_nonneg_right hle (step_pos e).le))
    · have hle : (n : Rat) ≤ stepsBelow m e := by exact_mod_cast hge
      exact .inl (Magnitude.readsBack_of_between h hself
        (mul_le_mul_of_nonneg_right hle (step_pos e).le) (stepsBelow_le m e))
  simp only [neighbour?]
  split
  next => exact ⟨_, rfl⟩
  next => exact ⟨_, rfl⟩
  next => exact ⟨_, rfl⟩
  next hlower hupper =>
    rcases hone with htrue | htrue
    · cases hlower.symm.trans htrue
    · cases hupper.symm.trans htrue

/-- The search finds a neighbour no later than on a grid that has one. -/
theorem firstNeighbour?_of_exists {grids i : Nat} (hi : i < grids) {e : Int}
    (h : ∃ d, neighbour? m (e - i) = some d) :
    ∃ j ≤ i, ∃ d, neighbour? m (e - j) = some d ∧ firstNeighbour? m grids e = some d := by
  induction grids generalizing i e with
  | zero => omega
  | succ grids ih =>
      rw [firstNeighbour?]
      cases hfirst : neighbour? m e with
      | some d => exact ⟨0, Nat.zero_le i, d, by simpa using hfirst, rfl⟩
      | none =>
          cases i with
          | zero => simp [hfirst] at h
          | succ i =>
              have hshift : ∀ k : Nat, e - (k + 1 : Nat) = e - 1 - k := by omega
              rw [hshift] at h
              obtain ⟨j, hj, d, hd, hsearch⟩ := ih (Nat.lt_of_succ_lt_succ hi) h
              exact ⟨j + 1, Nat.succ_le_succ hj, d, (hshift j).symm ▸ hd, hsearch⟩

/-! ## Grids that are met -/

/-- Below a power of ten, no more steps fit in than this power has. -/
theorem stepsBelow_lt {e : Int} (hhigh : m.toRat < step e) (places : Nat) :
    stepsBelow m (e - places) < 10 ^ places := by
  have hlt : (stepsBelow m (e - places) : Rat) * step (e - places) <
      10 ^ places * step (e - places) := by
    rw [← step_eq_mul]
    exact (stepsBelow_le m _).trans_lt hhigh
  exact_mod_cast lt_of_mul_lt_mul_right hlt (step_pos _).le

section Grids

variable (hm : m.significand ≠ 0) {e : Int} (hlow : step (e - 1) ≤ m.toRat)
include hm hlow

/-- The grid of seventeen digits is fine enough. -/
theorem exists_multiple_seventeen : ∃ n : Nat, m.readsBack (n * step (e - 17)) := by
  apply Magnitude.exists_readsBack_multiple hm (step_pos _)
  have hsteps := step_eq_mul (e - 1) 16
  rw [show e - 1 - (16 : Nat) = e - 17 by omega] at hsteps
  linarith

/-- What has so many digits lies on the grid for them, or else the power of ten in front of the
magnitude is nearer and lies there. -/
theorem exists_multiple_of_digits {k a : Nat} {exponent : Int} (hk : 0 < k) (ha : a < 10 ^ k)
    (h : m.readsBack (a * step exponent)) : ∃ n : Nat, m.readsBack (n * step (e - k)) := by
  by_cases hcoarse : e - k ≤ exponent
  · obtain ⟨places, hplaces⟩ := Int.eq_ofNat_of_zero_le (Int.sub_nonneg.mpr hcoarse)
    refine ⟨a * 10 ^ places, ?_⟩
    rw [step_eq_mul exponent places, show exponent - places = e - k by omega, ← mul_assoc] at h
    push_cast
    exact h
  · have hpower : m.readsBack (step (e - 1)) := by
      refine Magnitude.readsBack_of_between h (Magnitude.readsBack_toRat hm) ?_ hlow
      calc (a : Rat) * step exponent ≤ 10 ^ k * step (e - 1 - k) := by
            apply mul_le_mul (by exact_mod_cast ha.le) (step_mono (by omega)) (step_pos _).le
            positivity
        _ = step (e - 1) := (step_eq_mul (e - 1) k).symm
    refine ⟨10 ^ (k - 1), ?_⟩
    rw [step_eq_mul (e - 1) (k - 1), show e - 1 - (k - 1 : Nat) = e - k by omega] at hpower
    push_cast
    exact hpower

end Grids

end Decimal

end TimingChart
