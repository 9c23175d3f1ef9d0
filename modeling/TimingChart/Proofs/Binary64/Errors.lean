import Mathlib.Data.Nat.Cast.Order.Field
import TimingChart.Proofs.Binary64.Nearest
import TimingChart.Proofs.Binary64.Whole

/-! # Rounding errors

An operation changes the exact result in the 53rd bit at most. From `2 ^ 52` on all doubles are
whole numbers, and from `2 ^ 54` on multiples of four. -/

namespace TimingChart

namespace Magnitude

attribute [local irreducible] unitsPerOne

/-- Half a step of the grid is a part of what is rounded, or half a unit. -/
theorem gap_le_of_nearest? {num den : Nat} {m : Magnitude} (hden : 0 < den)
    (h : nearest? num den = some m) :
    0x20000000000000 * gap num den m.units ≤ num + 0x10000000000000 * den := by
  have hstep : 0 < den * 2 ^ gridExponent num den := Nat.mul_pos hden (Nat.two_pow_pos _)
  obtain ⟨hlow, hhigh, -⟩ := (roundHalfEven_eq_iff hstep).mp
    (rfl : roundHalfEven num (den * 2 ^ gridExponent num den) = _)
  have hgap : 2 * gap num den m.units ≤ den * 2 ^ gridExponent num den := by
    rw [(of_nearest? hden h).1, roundedUnits, gap, Nat.mul_assoc, Nat.mul_comm _ den]
    omega
  by_cases hzero : gridExponent num den = 0
  · rw [hzero, Nat.pow_zero, Nat.mul_one] at hgap
    omega
  · have hnum := grid_le hden hzero
    omega

end Magnitude

namespace Binary64

open Magnitude (limit unitsPerOne unitsPerOne_pos)

attribute [local irreducible] limit unitsPerOne

variable {x y : Binary64}

/-! ## One operation -/

/-- The sign of an exact zero is no part of the value. -/
theorem toRat_nearest_congr (s t : Bool) (q : Rat) : (nearest s q).toRat = (nearest t q).toRat := by
  by_cases hq : q = 0
  · rw [hq, nearest_zero, nearest_zero, toRat_zero, toRat_zero]
  · have hnum : q.num ≠ 0 := Rat.num_ne_zero.mpr hq
    rw [nearest, nearest, if_neg hnum, if_neg hnum]

theorem hasSign_decide (q : Rat) : HasSign (decide (q < 0)) q := by
  rw [HasSign]
  split
  · next hneg => exact (of_decide_eq_true hneg).le
  · next hpos => exact not_lt.mp (fun hneg => hpos (decide_eq_true hneg))

theorem two_pow_le_unitsPerOne : 0x10000000000000 ≤ unitsPerOne := by
  rw [unitsPerOne]
  exact Nat.pow_le_pow_right Nat.two_pos (by decide : 52 ≤ 1074)

/-- A result differs from the exact one in the 53rd bit at most, or by less than `2 ^ -53`. -/
theorem abs_nearest_sub_le (s : Bool) {q : Rat} (h : (nearest s q).isFinite) :
    |(nearest s q).toRat - q| ≤ (|q| + 1) / 2 ^ 53 := by
  have hsign := hasSign_decide q
  rw [isFinite_nearest_congr s (decide (q < 0))] at h
  rw [toRat_nearest_congr s (decide (q < 0)), abs_sub_comm]
  rw [nearest_of_hasSign hsign] at h ⊢
  cases hnearest : Magnitude.nearest? ((|q|).num.natAbs * unitsPerOne) (|q|).den with
  | none =>
      rw [hnearest] at h
      cases h
  | some m =>
      have hgap := Magnitude.gap_le_of_nearest? (|q|).den_pos hnearest
      rw [Option.elim_some, abs_sub_finite hsign, abs_sub_toRat (abs_nonneg q)]
      have hden : (0 : Rat) < ((|q|).den * unitsPerOne : Nat) := by
        exact_mod_cast Nat.mul_pos (|q|).den_pos unitsPerOne_pos
      have hnum : |q| * (|q|).den = (|q|).num.natAbs := by
        rw [Rat.mul_den_eq_num, Nat.cast_natAbs, abs_of_nonneg (Rat.num_nonneg.mpr (abs_nonneg q))]
      rw [div_le_div_iff₀ hden (by norm_num)]
      generalize Magnitude.gap _ _ _ = gap at *
      have hnat : 0x20000000000000 * gap ≤
          (|q|).num.natAbs * unitsPerOne + (|q|).den * unitsPerOne := by
        have hunits := Nat.mul_le_mul_left (|q|).den two_pow_le_unitsPerOne
        omega
      calc (gap : Rat) * 2 ^ 53 = ((0x20000000000000 * gap : Nat) : Rat) := by
            push_cast
            ring
        _ ≤ ((|q|).num.natAbs * unitsPerOne + (|q|).den * unitsPerOne : Nat) := by
            exact_mod_cast hnat
        _ = (|q| + 1) * ((|q|).den * unitsPerOne : Nat) := by
            push_cast
            rw [← hnum]
            ring

/-- What is small enough has a finite double for its nearest. -/
theorem isFinite_nearest_of_le (s : Bool) {q : Rat} (hq : |q| ≤ 2 ^ 100) :
    (nearest s q).isFinite := by
  have hsign := hasSign_decide q
  rw [isFinite_nearest_congr s (decide (q < 0)), (isNearest_nearest hsign).isFinite_iff]
  calc |q| ≤ 2 ^ 100 := hq
    _ < (2 ^ 54 - 1) * 2 ^ 100 := by norm_num
    _ ≤ (2 ^ 54 - 1) * 2 ^ 970 :=
        mul_le_mul_of_nonneg_left (pow_le_pow_right₀ (by norm_num) (by decide)) (by norm_num)

/-- An operation on values that are not too large has a finite result close to the exact one. -/
theorem near_of_eq_nearest {q : Rat} (hx : ∃ s, x = nearest s q) (hq : |q| ≤ 2 ^ 100) :
    x.isFinite ∧ |x.toRat - q| ≤ (|q| + 1) / 2 ^ 53 := by
  obtain ⟨s, rfl⟩ := hx
  have hfinite := isFinite_nearest_of_le s hq
  exact ⟨hfinite, abs_nearest_sub_le s hfinite⟩

theorem between_of_eq_nearest {q bound : Rat} (hx : ∃ s, x = nearest s q) (hq : |q| ≤ bound)
    (hbound : bound ≤ 2 ^ 100) :
    x.isFinite ∧ q - (bound + 1) / 2 ^ 53 ≤ x.toRat ∧ x.toRat ≤ q + (bound + 1) / 2 ^ 53 := by
  obtain ⟨hfinite, hnear⟩ := near_of_eq_nearest hx (hq.trans hbound)
  have hpart : (|q| + 1) / 2 ^ 53 ≤ (bound + 1) / 2 ^ 53 :=
    div_le_div_of_nonneg_right (by linarith) (by norm_num)
  obtain ⟨hlow, hhigh⟩ := abs_le.mp (hnear.trans hpart)
  exact ⟨hfinite, by linarith, by linarith⟩

theorem le_of_eq_nearest {q low : Rat} (hx : ∃ s, x = nearest s q) (hlow : IsExact low)
    (hle : low ≤ q) (hq : |q| ≤ 2 ^ 100) : x.isFinite ∧ low ≤ x.toRat := by
  obtain ⟨s, rfl⟩ := hx
  obtain ⟨y, hy, rfl⟩ := hlow
  have hfinite := isFinite_nearest_of_le s hq
  exact ⟨hfinite, (le_iff_toRat hy hfinite).mp (le_nearest s hy hle)⟩

/-! ## Coarse grids -/

/-- Doubles that are large enough are multiples of a power of two. -/
theorem exists_eq_mul_two_pow (hx : x.isFinite) {j : Nat} (h : 2 ^ (52 + j) ≤ |x.toRat|) :
    ∃ k : Int, x.toRat = k * 2 ^ j := by
  obtain ⟨ones, -, hones⟩ := exists_unitsPerOne_eq
  have hunits : (unitsPerOne : Rat) = 2 ^ (ones + 1) := by
    rw [hones, Nat.cast_mul, Nat.cast_pow, Nat.cast_two, pow_succ']
  have hpos : (0 : Rat) < 2 ^ (ones + 1) := by positivity
  cases x with
  | nan => cases hx
  | infinite s => cases hx
  | finite s m =>
      have hvalue : m.toRat = m.units / 2 ^ (ones + 1) := by
        rw [m.toRat_eq_div, hunits]
      rw [abs_toRat_finite, hvalue, le_div_iff₀ hpos] at h
      rcases m.units_grid (ones + 1 + j) with ⟨k, hk⟩ | ⟨-, hbelow⟩
      · have hmultiple : m.toRat = (k : Int) * 2 ^ j := by
          rw [hvalue, hk, div_eq_iff hpos.ne']
          push_cast
          rw [pow_add]
          ring
        rw [toRat_finite, hmultiple]
        cases s with
        | false => exact ⟨k, if_neg Bool.false_ne_true⟩
        | true => exact ⟨-k, by rw [if_pos rfl, Int.cast_neg, neg_mul]⟩
      · have hcast : (m.units : Rat) < (0x10000000000000 * 2 ^ (ones + 1 + j) : Nat) := by
          exact_mod_cast hbelow
        have hsame : ((0x10000000000000 * 2 ^ (ones + 1 + j) : Nat) : Rat) =
            2 ^ (52 + j) * 2 ^ (ones + 1) := by
          push_cast
          rw [pow_add _ 52, pow_add _ (ones + 1)]
          ring
        linarith

/-- A whole part is exact, as doubles that are too large for that have no other part. -/
theorem floor_spec (hx : x.isFinite) : x.floor.isFinite ∧ x.floor.toRat = ⌊x.toRat⌋ := by
  obtain ⟨s, hs⟩ := floor_eq_nearest hx
  rw [hs]
  rcases le_or_gt (2 ^ 52) |x.toRat| with hlarge | hsmall
  · obtain ⟨k, hk⟩ := exists_eq_mul_two_pow (j := 0) hx hlarge
    rw [pow_zero, mul_one] at hk
    have hfloor : (⌊x.toRat⌋ : Rat) = x.toRat := by rw [hk, Int.floor_intCast]
    rw [hfloor]
    exact nearest_of_isExact s ⟨x, hx, rfl⟩
  · obtain ⟨hlow, hhigh⟩ := abs_lt.mp hsmall
    refine nearest_intCast s ?_
    have hge : (-2 ^ 52 : Int) ≤ ⌊x.toRat⌋ := Int.le_floor.mpr (by exact_mod_cast hlow.le)
    have hlt : ⌊x.toRat⌋ < (2 ^ 52 : Int) := Int.floor_lt.mpr (by exact_mod_cast hhigh)
    omega

/-! ## Counts -/

/-- In units, a value is not below a whole number if it is not. -/
theorem mul_le_units_iff {n : Nat} : n * unitsPerOne ≤ x.units ↔ n ≤ x.toRat := by
  have hpos : (0 : Rat) < unitsPerOne := by exact_mod_cast unitsPerOne_pos
  rw [toRat, Rat.mkRat_eq_div, le_div_iff₀ hpos]
  exact_mod_cast Iff.rfl

theorem le_toCount {n : Nat} (hn : n < UInt64.size) (hx : x.isFinite) (h : n ≤ x.toRat) :
    n ≤ x.toCount := by
  have hpos : (0 : Int) < unitsPerOne := by exact_mod_cast unitsPerOne_pos
  have hunits := mul_le_units_iff.mpr h
  have hnonneg : 0 ≤ x.units := (mul_nonneg (Int.natCast_nonneg n) hpos.le).trans hunits
  have hwhole : (n : Int) ≤ x.units.tdiv unitsPerOne := by
    rw [Int.tdiv_eq_ediv_of_nonneg hnonneg]
    exact (Int.le_ediv_iff_mul_le hpos).mpr hunits
  cases x with
  | nan => cases hx
  | infinite s => cases hx
  | finite s m =>
      rw [toCount]
      omega

theorem round_eq_nearest (hx : x.isFinite) : ∃ s, x.round = nearest s (x.units.sign *
    ((2 * x.units.natAbs + unitsPerOne) / (2 * unitsPerOne) : Nat) : Int) := by
  cases x with
  | nan => cases hx
  | infinite s => cases hx
  | finite s m => exact ⟨s, rfl⟩

/-- A value from a whole number on is not rounded below it. -/
theorem le_toRat_round {n : Nat} (hn : n ≤ 0x20000000000000) (hpos : 0 < n) (hx : x.isFinite)
    (h : n ≤ x.toRat) (hsmall : x.toRat ≤ 2 ^ 99) : x.round.isFinite ∧ n ≤ x.round.toRat := by
  have hone := unitsPerOne_pos
  have hcast : (0 : Rat) < unitsPerOne := by exact_mod_cast hone
  have hunits := mul_le_units_iff.mpr h
  have hpositive : 0 < x.units :=
    (mul_pos (Int.natCast_pos.mpr hpos) (Int.natCast_pos.mpr hone)).trans_le hunits
  obtain ⟨units, hu⟩ := Int.eq_ofNat_of_zero_le hpositive.le
  have hround := round_eq_nearest hx
  rw [Int.sign_eq_one_of_pos hpositive, one_mul, hu, Int.natAbs_natCast] at hround
  have hvalue : x.toRat = units / unitsPerOne := by
    rw [toRat, Rat.mkRat_eq_div, hu, Int.cast_natCast]
  refine le_of_eq_nearest hround (isExact_intCast (n := n) hn) ?_ ?_
  · have hge : n ≤ (2 * units + unitsPerOne) / (2 * unitsPerOne) := by
      rw [Nat.le_div_iff_mul_le (by omega)]
      have hnat : n * unitsPerOne ≤ units := by exact_mod_cast hu ▸ hunits
      calc n * (2 * unitsPerOne) = 2 * (n * unitsPerOne) := by ring
        _ ≤ 2 * units + unitsPerOne := by omega
    exact_mod_cast hge
  · have hle : (((2 * units + unitsPerOne) / (2 * unitsPerOne) : Nat) : Rat) ≤
        (2 * units + unitsPerOne : Nat) / (2 * unitsPerOne : Nat) := Nat.cast_div_le
    have hhalf : ((2 * units + unitsPerOne : Nat) : Rat) / (2 * unitsPerOne : Nat) =
        x.toRat + 1 / 2 := by
      rw [hvalue]
      push_cast
      field_simp
    rw [hhalf] at hle
    rw [Int.cast_natCast, abs_of_nonneg (Nat.cast_nonneg _)]
    linarith

end Binary64

end TimingChart
