import TimingChart.Binary64.Log
import TimingChart.Proofs.Binary64.Errors

/-! # Logarithms and powers of ten from a value on

How near the series are to logarithms is not at issue here. The logarithm of what is not below one
is not negative, and that of two is not below two thirds, so the logarithms of numbers from 64 on
are not below four, and that of ten is. -/

namespace TimingChart.Binary64

open Magnitude (unitsPerOne unitsPerOne_pos)

variable {x : Binary64}

/-! ## Logarithms -/

theorem fixedOne_pos : 0 < fixedOne := by
  rw [fixedOne]
  positivity

theorem oddSeries_nonneg {square : Int} (hsquare : 0 ≤ square) (terms : Nat) {power odd : Int}
    (hpower : 0 ≤ power) (hodd : 0 ≤ odd) : 0 ≤ oddSeries square terms power odd := by
  induction terms generalizing power odd with
  | zero => exact Int.le_refl 0
  | succ terms ih =>
      have hnext : 0 ≤ power * square / fixedOne :=
        Int.ediv_nonneg (Int.mul_nonneg hpower hsquare) fixedOne_pos.le
      exact Int.add_nonneg (Int.ediv_nonneg hpower hodd) (ih hnext (by omega))

theorem fixedLog_nonneg {num den : Int} (hden : 0 ≤ den) (hle : den ≤ num) :
    0 ≤ fixedLog num den := by
  have hratio : 0 ≤ (num - den) * fixedOne / (num + den) :=
    Int.ediv_nonneg (Int.mul_nonneg (by omega) fixedOne_pos.le) (by omega)
  have hsquare := Int.ediv_nonneg (Int.mul_nonneg hratio hratio) fixedOne_pos.le
  exact Int.mul_nonneg (by decide) (oddSeries_nonneg hsquare 100 hratio (by decide))

theorem two_thirds_le_fixedLog : 2 * fixedOne ≤ 3 * fixedLog 2 1 := by decide +kernel

theorem four_le_fixedLogScaled {num den shift : Int} (hshift : 6 ≤ shift) (hden : 0 ≤ den)
    (hle : den ≤ num) : 4 * fixedOne ≤ fixedLogScaled num den shift := by
  have htwo := two_thirds_le_fixedLog
  have hone := fixedOne_pos
  have hscaled : 6 * fixedLog 2 1 ≤ shift * fixedLog 2 1 :=
    Int.mul_le_mul_of_nonneg_right hshift (by omega)
  have hrest := fixedLog_nonneg hden hle
  rw [fixedLogScaled]
  omega

/-- A magnitude from 64 on has a binary exponent from six on. -/
theorem six_le_exponent {m : Magnitude} (h : 64 * unitsPerOne ≤ m.units) :
    1080 ≤ m.significand.log2 + m.exponent := by
  -- the number is hidden here, as `2 ^ 1074` is not to be evaluated
  obtain ⟨ones, hunits, hones⟩ : ∃ ones, unitsPerOne = 2 ^ ones ∧ 1074 = ones :=
    ⟨_, rfl, rfl⟩
  have hpow : 2 ^ (6 + ones) < 2 ^ (m.significand.log2 + 1 + m.exponent) := by
    calc 2 ^ (6 + ones) = 64 * unitsPerOne := by rw [hunits, Nat.pow_add]
      _ ≤ m.significand * 2 ^ m.exponent := h
      _ < 2 ^ (m.significand.log2 + 1) * 2 ^ m.exponent :=
          Nat.mul_lt_mul_of_pos_right Nat.lt_log2_self (Nat.two_pow_pos _)
      _ = 2 ^ (m.significand.log2 + 1 + m.exponent) := (Nat.pow_add ..).symm
  have hexponents := (Nat.pow_lt_pow_iff_right Nat.one_lt_two).mp hpow
  omega

attribute [local irreducible] unitsPerOne

theorem IsAtLeast.ln (h : x.IsAtLeast 64) : x.ln.IsAtLeast 4 := by
  rcases h with rfl | ⟨hx, hle⟩
  · exact .inl rfl
  · have hunits : (64 : Nat) * unitsPerOne ≤ x.units := mul_le_units_iff.mpr (by exact_mod_cast hle)
    cases x with
    | nan => cases hx
    | infinite s => cases hx
    | finite s m =>
        obtain ⟨rfl, hne⟩ := parts_of_pos ((by norm_num : (0 : Rat) < 64).trans_le hle)
        have hvalue : (finite false m).units = m.units := rfl
        rw [hvalue] at hunits
        have hexponent := six_le_exponent (m := m) (by exact_mod_cast hunits)
        have hlog := four_le_fixedLogScaled
          (by omega : (6 : Int) ≤ m.significand.log2 + m.exponent - 1074) (Int.natCast_nonneg _)
          (Int.ofNat_le.mpr (Nat.log2_self_le hne))
        rw [Binary64.ln, if_neg hne, if_neg Bool.false_ne_true]
        refine isAtLeast_nearest false (isExact_intCast (n := 4) (by decide)) ?_
        have hpos : (0 : Rat) < fixedOne.toNat := by
          exact_mod_cast Int.lt_toNat.mpr fixedOne_pos
        rw [Rat.mkRat_eq_div, le_div_iff₀ hpos, ← Int.cast_natCast,
          Int.toNat_of_nonneg fixedOne_pos.le]
        exact_mod_cast hlog

theorem ln_ten_spec : (ln 10).isFinite ∧ 0 < (ln 10).toRat ∧ (ln 10).toRat ≤ 4 := by decide +kernel

/-! ## Powers of ten -/

theorem powerOfTen_leaningUp :
    ∀ k ∈ leaningUp, (powerOfTen k).isFinite ∧ 10 ≤ (powerOfTen k).toRat := by decide +kernel

theorem powerOfTen_isAtLeast {k : Int} (hk : 1 ≤ k) : (powerOfTen k).IsAtLeast 10 := by
  by_cases hup : k ∈ leaningUp
  · exact .inr (powerOfTen_leaningUp k hup)
  · rw [powerOfTen, if_neg hup, if_neg (by omega)]
    refine isAtLeast_nearest false (isExact_intCast (n := 10) (by decide)) ?_
    have hpow : 10 ^ 1 ≤ 10 ^ k.toNat := Nat.pow_le_pow_right (by decide) (by omega)
    exact_mod_cast hpow

theorem IsAtLeast.tenTo (h : x.IsAtLeast 1) : x.tenTo.IsAtLeast 10 := by
  rcases h with rfl | ⟨hx, hle⟩
  · exact .inl rfl
  · have hunits : (1 : Nat) * unitsPerOne ≤ x.units := mul_le_units_iff.mpr (by exact_mod_cast hle)
    cases x with
    | nan => cases hx
    | infinite s => cases hx
    | finite s m =>
        have hpos : (0 : Int) < unitsPerOne := by exact_mod_cast unitsPerOne_pos
        exact powerOfTen_isAtLeast ((Int.le_ediv_iff_mul_le hpos).mpr hunits)

end TimingChart.Binary64
