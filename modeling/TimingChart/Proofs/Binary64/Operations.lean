import Mathlib.Algebra.Order.Floor.Ring
import Mathlib.Data.Rat.Floor
import TimingChart.Proofs.Binary64.Order

/-! # What the operations give

Sums, differences and quotients of finite doubles are exact results that are rounded once. Whole
numbers of up to 53 bits are doubles themselves. -/

namespace TimingChart.Binary64

open Magnitude (limit unitsPerOne unitsPerOne_pos roundedUnits)

attribute [local irreducible] limit unitsPerOne

variable {x y : Binary64}

/-! ## Exact results, rounded -/

theorem isFinite_neg (hx : x.isFinite) : (neg x).isFinite := by
  cases x with
  | finite s m => rfl
  | nan => cases hx
  | infinite s => cases hx

theorem toRat_neg (hx : x.isFinite) : (neg x).toRat = -x.toRat := by
  cases x with
  | finite s m => cases s <;> simp [neg, toRat_finite]
  | nan => cases hx
  | infinite s => cases hx

theorem isFinite_nearest_congr (s t : Bool) (q : Rat) :
    (nearest s q).isFinite = (nearest t q).isFinite := by
  rw [nearest, nearest]
  cases Magnitude.nearest? (q.num.natAbs * unitsPerOne) q.den <;> rfl

section Rounded

variable (hx : x.isFinite) (hy : y.isFinite)
include hx hy

theorem add_eq_nearest : ∃ s, x + y = nearest s (x.toRat + y.toRat) := by
  cases x with
  | nan => cases hx
  | infinite s => cases hx
  | finite s m =>
      cases y with
      | nan => cases hy
      | infinite t => cases hy
      | finite t n => exact ⟨s && t, rfl⟩

theorem sub_eq_nearest : ∃ s, x - y = nearest s (x.toRat - y.toRat) := by
  obtain ⟨s, hs⟩ := add_eq_nearest hx (isFinite_neg hy)
  rw [toRat_neg hy, ← sub_eq_add_neg] at hs
  exact ⟨s, hs⟩

theorem div_eq_nearest (hne : y.toRat ≠ 0) : ∃ s, x / y = nearest s (x.toRat / y.toRat) := by
  cases x with
  | nan => cases hx
  | infinite s => cases hx
  | finite s m =>
      cases y with
      | nan => cases hy
      | infinite t => cases hy
      | finite t n =>
          have hn : n.significand ≠ 0 := by
            intro hzero
            obtain rfl := Magnitude.eq_zero_of_significand hzero
            exact hne (toRat_zero t)
          exact ⟨s ^^ t, if_neg hn⟩

/-- Taking away what is not negative gives nothing larger. -/
theorem sub_le (hnonneg : 0 ≤ y.toRat) : x - y ≤ x := by
  obtain ⟨s, hs⟩ := sub_eq_nearest hx hy
  rw [hs]
  exact nearest_le s hx (sub_le_self _ hnonneg)

/-- Adding what is not negative gives nothing smaller. -/
theorem le_add (hnonneg : 0 ≤ y.toRat) : x ≤ x + y := by
  obtain ⟨s, hs⟩ := add_eq_nearest hx hy
  rw [hs]
  exact le_nearest s hx (le_add_of_nonneg_right hnonneg)

end Rounded

/-! ## Whole numbers -/

theorem roundedUnits_of_dvd {num : Nat} (h : 2 ^ Magnitude.gridExponent num 1 ∣ num) :
    roundedUnits num 1 = num := by
  obtain ⟨k, hk⟩ := h
  have hpow : 0 < 2 ^ Magnitude.gridExponent num 1 := Nat.two_pow_pos _
  rw [roundedUnits, Nat.one_mul]
  have hround : roundHalfEven num (2 ^ Magnitude.gridExponent num 1) = k := by
    rw [roundHalfEven_eq_iff hpow]
    have hmul : num = k * 2 ^ Magnitude.gridExponent num 1 := hk.trans (Nat.mul_comm _ _)
    omega
  rw [hround, Nat.mul_comm]
  exact hk.symm

/-- Numbers of at most 53 bits, times any power of two, are on the grid they are rounded to. -/
theorem dvd_of_le {n k : Nat} (hn : n ≤ 2 ^ 53) :
    2 ^ Magnitude.gridExponent (n * 2 ^ k) 1 ∣ n * 2 ^ k := by
  by_cases hgrid : Magnitude.gridExponent (n * 2 ^ k) 1 ≤ k
  · exact Nat.dvd_trans (Nat.pow_dvd_pow 2 hgrid) (Nat.dvd_mul_left _ _)
  · rw [Magnitude.gridExponent, Nat.div_one] at hgrid ⊢
    have hne : n * 2 ^ k ≠ 0 := by
      intro hzero
      rw [hzero, Nat.log2_zero] at hgrid
      omega
    have hpow : 2 ^ 53 * 2 ^ k ≤ n * 2 ^ k := by
      rw [← Nat.pow_add]
      exact (Nat.pow_le_pow_right (by decide) (by omega)).trans (Nat.log2_self_le hne)
    obtain rfl := Nat.le_antisymm hn (Nat.le_of_mul_le_mul_right hpow (Nat.two_pow_pos k))
    rw [← Nat.pow_add, Nat.log2_two_pow]
    exact Nat.pow_dvd_pow 2 (by omega)

/-- Up to `2 ^ 53`, the whole numbers are doubles. -/
theorem ofInt_spec {n : Int} (hn : n.natAbs ≤ 0x20000000000000) :
    (ofInt n).isFinite ∧ (ofInt n).toRat = n := by
  have hlimit : n.natAbs * unitsPerOne < limit := by
    rw [unitsPerOne, limit]
    exact Magnitude.mul_lt_two_pow (a := 54) (b := 2044) (k := 2098) (e := 1074)
      (Nat.lt_of_le_of_lt hn (by decide)) (by decide) rfl
  have hgrid : 2 ^ Magnitude.gridExponent (n.natAbs * unitsPerOne) 1 ∣ n.natAbs * unitsPerOne := by
    rw [unitsPerOne]
    exact dvd_of_le (k := 1074) hn
  have hposition : (ofInt n).position = some (n * unitsPerOne) := by
    rw [ofInt, position_nearest, roundedPosition, Rat.num_intCast, Rat.den_intCast,
      roundedUnits_of_dvd hgrid, min_eq_left hlimit.le]
    push_cast
    rw [← mul_assoc, Int.sign_mul_abs]
  obtain ⟨hfinite, hunits⟩ := isFinite_of_position hposition (by
    rwa [Int.natAbs_mul, Int.natAbs_natCast])
  have hne : (unitsPerOne : Rat) ≠ 0 := by exact_mod_cast unitsPerOne_pos.ne'
  refine ⟨hfinite, ?_⟩
  rw [toRat, hunits, Rat.mkRat_eq_div]
  push_cast
  exact mul_div_cancel_right₀ _ hne

theorem ofNat_spec {n : Nat} (hn : n ≤ 0x20000000000000) :
    (OfNat.ofNat n : Binary64).isFinite ∧ (OfNat.ofNat n : Binary64).toRat = n := by
  have hspec := ofInt_spec (n := n) hn
  rwa [Int.cast_natCast] at hspec

theorem zero_spec : (0 : Binary64).isFinite ∧ (0 : Binary64).toRat = 0 := by
  have hspec := ofNat_spec (n := 0) (by decide)
  rwa [Nat.cast_zero] at hspec

theorem one_spec : (1 : Binary64).isFinite ∧ (1 : Binary64).toRat = 1 := by
  have hspec := ofNat_spec (n := 1) (by decide)
  rwa [Nat.cast_one] at hspec

theorem ten_spec : (10 : Binary64).isFinite ∧ (10 : Binary64).toRat = 10 := by
  have hspec := ofNat_spec (n := 10) (by decide)
  rwa [Nat.cast_ofNat] at hspec

/-! ## The largest double -/

/-- The largest magnitude. -/
def largestMagnitude : Magnitude :=
  ⟨0x1FFFFFFFFFFFFF, 2045, by decide, by decide, .inr (by decide)⟩

theorem units_le_largest (m : Magnitude) : m.units ≤ largestMagnitude.units :=
  Nat.mul_le_mul (Nat.le_of_lt_succ m.significand_lt)
    (Nat.pow_le_pow_right (by decide) m.exponent_le)

theorem toRat_add_one (m : Magnitude) :
    m.toRat + 1 = mkRat (4 * m.units + 4 * unitsPerOne : Nat) (4 * unitsPerOne) := by
  have hne : (4 * unitsPerOne : Rat) ≠ 0 := by
    exact_mod_cast (Nat.mul_pos (by decide : 0 < 4) unitsPerOne_pos).ne'
  rw [Magnitude.toRat_eq, Rat.mkRat_eq_div, Rat.mkRat_eq_div]
  push_cast
  rw [add_div, div_self hne]

theorem four_mul_two_pow_lt {k e : Nat} (h : k + 2 ≤ e) : 4 * 2 ^ k < 2 * 2 ^ e := by
  have hle : 2 ^ (k + 2) ≤ 2 ^ e := Nat.pow_le_pow_right (by decide) h
  have hpos := Nat.two_pow_pos k
  rw [Nat.pow_add] at hle
  omega

/-- Where the doubles are far apart, one more than an odd magnitude is still rounded to it. -/
theorem readsBack_add_one {m : Magnitude} (hodd : m.significand % 2 = 1)
    (hwide : 1076 ≤ m.exponent) : m.readsBack (m.toRat + 1) := by
  have hself := Magnitude.readsBack_toRat (m := m) (by omega)
  have hfrom := not_le.mp ((Magnitude.readsBack_ends hself).2 hodd).1
  have hstep : 4 * unitsPerOne < 2 * 2 ^ m.exponent := by
    rw [unitsPerOne]
    exact four_mul_two_pow_lt (k := 1074) hwide
  have hupTo : m.toRat + 1 < m.roundsUpTo := by
    rw [toRat_add_one, Magnitude.roundsUpTo, Nat.add_mul, Nat.mul_assoc]
    refine Magnitude.mkRat_lt_mkRat ?_ (Nat.mul_pos (by decide) unitsPerOne_pos)
    exact Nat.add_lt_add_left hstep _
  rw [Magnitude.readsBack, if_neg (by omega)]
  exact decide_eq_true ⟨hfrom.trans (lt_add_one _), hupTo⟩

/-- What is at most one beyond the largest double is rounded to a finite one. -/
theorem isFinite_nearest_of_abs_le (s : Bool) {q : Rat} (hq : |q| ≤ largestMagnitude.toRat + 1) :
    (nearest s q).isFinite := by
  have hlargest := nearest_of_readsBack (m := largestMagnitude) (by decide)
    (readsBack_add_one rfl (by decide)) false
  have hlow : finite true largestMagnitude ≤ nearest s q := by
    rw [← hlargest true, if_pos rfl]
    exact nearest_mono _ _ (neg_le_of_abs_le hq)
  have hhigh : nearest s q ≤ finite false largestMagnitude := by
    rw [← hlargest false, if_neg Bool.false_ne_true]
    exact nearest_mono _ _ (le_of_abs_le hq)
  exact isFinite_of_le_of_le rfl rfl hlow hhigh

theorem abs_toRat_finite (s : Bool) (m : Magnitude) : |(finite s m).toRat| = m.toRat := by
  rw [toRat_finite]
  cases s <;> simp [abs_of_nonneg m.toRat_nonneg]

theorem exists_abs_toRat_eq (hx : x.isFinite) : ∃ m : Magnitude, |x.toRat| = m.toRat := by
  cases x with
  | nan => cases hx
  | infinite s => cases hx
  | finite s m => exact ⟨m, abs_toRat_finite s m⟩

theorem abs_toRat_le (hx : x.isFinite) : |x.toRat| ≤ largestMagnitude.toRat := by
  have hunits : (0 : Rat) < unitsPerOne := by exact_mod_cast unitsPerOne_pos
  obtain ⟨m, hm⟩ := exists_abs_toRat_eq hx
  rw [hm, Magnitude.toRat_eq_div, Magnitude.toRat_eq_div]
  exact div_le_div_of_nonneg_right (by exact_mod_cast units_le_largest m) hunits.le

/-- Adding one keeps a finite double finite. -/
theorem isFinite_add_one (hx : x.isFinite) : (x + 1).isFinite := by
  obtain ⟨hone, hvalue⟩ := one_spec
  obtain ⟨s, hs⟩ := add_eq_nearest hx hone
  rw [hs, hvalue]
  exact isFinite_nearest_of_abs_le s ((abs_add_le _ _).trans (by simpa using abs_toRat_le hx))

theorem isFinite_sub_one (hx : x.isFinite) : (x - 1).isFinite := by
  obtain ⟨hone, hvalue⟩ := one_spec
  obtain ⟨s, hs⟩ := sub_eq_nearest hx hone
  rw [hs, hvalue]
  exact isFinite_nearest_of_abs_le s ((abs_sub _ _).trans (by simpa using abs_toRat_le hx))

/-- Between one less and one more than a double of at most `2 ^ 53`, there are two whole numbers
that are doubles. -/
theorem sub_one_lt_add_one (hx : x.isFinite) (hsmall : |x.toRat| ≤ 2 ^ 53) : x - 1 < x + 1 := by
  obtain ⟨hlow, hhigh⟩ := abs_le.mp hsmall
  obtain ⟨n, hn, hn', hbelow, habove⟩ : ∃ n : Int,
      n.natAbs ≤ 0x20000000000000 ∧ (n + 1).natAbs ≤ 0x20000000000000 ∧
        x.toRat - 1 ≤ n ∧ ((n + 1 : Int) : Rat) ≤ x.toRat + 1 := by
    rcases lt_or_ge 0 x.toRat with hpos | hneg
    · have hceil : 0 < ⌈x.toRat⌉ := Int.ceil_pos.mpr hpos
      have hbound : ⌈x.toRat⌉ ≤ 2 ^ 53 := Int.ceil_le.mpr (by exact_mod_cast hhigh)
      have hself := Int.le_ceil x.toRat
      have hnext := Int.ceil_lt_add_one x.toRat
      refine ⟨⌈x.toRat⌉ - 1, by omega, by omega, ?_, ?_⟩ <;> push_cast <;> linarith
    · have hfloor : ⌊x.toRat⌋ ≤ 0 := by
        exact_mod_cast (Int.floor_le x.toRat).trans hneg
      have hbound : -2 ^ 53 ≤ ⌊x.toRat⌋ := Int.le_floor.mpr (by exact_mod_cast hlow)
      have hself := Int.floor_le x.toRat
      have hnext := Int.lt_floor_add_one x.toRat
      refine ⟨⌊x.toRat⌋, by omega, by omega, ?_, ?_⟩ <;> push_cast <;> linarith
  obtain ⟨hfinite, hvalue⟩ := ofInt_spec hn
  obtain ⟨hfinite', hvalue'⟩ := ofInt_spec hn'
  have hless : ofInt n < ofInt (n + 1) := by
    rw [lt_iff_toRat hfinite hfinite', hvalue, hvalue']
    exact_mod_cast lt_add_one n
  obtain ⟨s, hs⟩ := sub_eq_nearest hx one_spec.1
  obtain ⟨t, ht⟩ := add_eq_nearest hx one_spec.1
  rw [hs, ht, one_spec.2]
  exact lt_of_le_of_lt (nearest_le s hfinite (hvalue ▸ hbelow))
    (lt_of_lt_of_le hless (le_nearest t hfinite' (hvalue' ▸ habove)))

end TimingChart.Binary64
