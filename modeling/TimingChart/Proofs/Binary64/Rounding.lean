import Mathlib.Algebra.Order.Field.Rat
import Mathlib.Tactic.Linarith
import Mathlib.Tactic.Positivity
import Mathlib.Tactic.Ring
import TimingChart.Decimal.Shortest

/-! # Rounding to the nearest double

A quotient of natural numbers is rounded to a magnitude exactly if it lies in the interval of the
magnitude: up to half a step away, or a quarter of a step below a power of two. -/

namespace TimingChart

/-! ## Whole numbers -/

theorem roundHalfEven_cases (num den : Nat) (hden : 0 < den) :
    ∃ q r, num = q * den + r ∧ r < den ∧
      ((2 * r < den ∧ roundHalfEven num den = q) ∨
        (den < 2 * r ∧ roundHalfEven num den = q + 1) ∨
        (2 * r = den ∧ roundHalfEven num den = q + q % 2)) := by
  refine ⟨num / den, num % den, ?_, Nat.mod_lt _ hden, ?_⟩
  · rw [Nat.mul_comm, Nat.div_add_mod]
  · simp only [roundHalfEven]
    by_cases hlt : 2 * (num % den) < den
    · exact .inl ⟨hlt, if_pos hlt⟩
    · rw [if_neg hlt]
      by_cases hgt : den < 2 * (num % den)
      · exact .inr (.inl ⟨hgt, if_pos hgt⟩)
      · exact .inr (.inr ⟨by omega, if_neg hgt⟩)

/-- The natural number that is rounded to is at most half a step away, and even if the distance is
exactly that. -/
theorem roundHalfEven_eq_iff {num den n : Nat} (hden : 0 < den) :
    roundHalfEven num den = n ↔
      2 * (n * den) ≤ 2 * num + den ∧ 2 * num ≤ 2 * (n * den) + den ∧
        (n % 2 = 1 → 2 * (n * den) < 2 * num + den ∧ 2 * num < 2 * (n * den) + den) := by
  obtain ⟨q, r, rfl, hr, h⟩ := roundHalfEven_cases num den hden
  have hnext : (q + 1) * den = q * den + den := Nat.add_one_mul q den
  constructor
  · intro heq
    subst heq
    rcases h with ⟨hlt, heq⟩ | ⟨hgt, heq⟩ | ⟨htie, heq⟩
    · rw [heq]
      omega
    · rw [heq, hnext]
      omega
    · rw [heq]
      rcases Nat.mod_two_eq_zero_or_one q with heven | hodd
      · rw [heven, Nat.add_zero]
        omega
      · rw [hodd, hnext]
        omega
  · intro h
    rcases h with ⟨hlow, hhigh, hodd⟩
    -- only the two whole numbers around the quotient are near enough
    have hn : n = q ∨ n = q + 1 := by
      by_contra hne
      rcases Nat.lt_or_ge n q with hlt | hge
      · have hmul : (n + 1) * den ≤ q * den := Nat.mul_le_mul_right den hlt
        rw [Nat.add_one_mul] at hmul
        omega
      · have hmul : (q + 2) * den ≤ n * den := Nat.mul_le_mul_right den (by omega)
        rw [Nat.add_mul] at hmul
        omega
    rcases hn with rfl | rfl
    · rcases h with ⟨hlt, heq⟩ | ⟨hgt, heq⟩ | ⟨htie, heq⟩ <;> omega
    · rw [hnext] at hlow hhigh hodd
      rcases h with ⟨hlt, heq⟩ | ⟨hgt, heq⟩ | ⟨htie, heq⟩ <;> omega

/-! ## Magnitudes -/

namespace Magnitude

/-- The quotient `num / den` lies in the interval of the magnitude. -/
structure Rounds (m : Magnitude) (num den : Nat) : Prop where
  low : 4 * (m.significand * (den * 2 ^ m.exponent)) ≤
    4 * num + (if m.narrowBelow then 1 else 2) * (den * 2 ^ m.exponent)
  high : 4 * num ≤
    4 * (m.significand * (den * 2 ^ m.exponent)) + 2 * (den * 2 ^ m.exponent)
  odd : m.significand % 2 = 1 →
    4 * (m.significand * (den * 2 ^ m.exponent)) <
      4 * num + (if m.narrowBelow then 1 else 2) * (den * 2 ^ m.exponent) ∧
    4 * num < 4 * (m.significand * (den * 2 ^ m.exponent)) + 2 * (den * 2 ^ m.exponent)

theorem gridExponent_eq_zero {num den : Nat} (hden : 0 < den)
    (h : num < 0x20000000000000 * den) : gridExponent num den = 0 := by
  have hlog : (num / den).log2 ≤ 52 := by
    by_cases hz : num / den = 0
    · simp [hz]
    · have hlt : num / den < 2 ^ 53 := (Nat.div_lt_iff_lt_mul hden).mpr (by simpa using h)
      have hlog := (Nat.log2_lt hz).mpr hlt
      omega
  rw [gridExponent]
  omega

theorem gridExponent_eq {num den e : Nat} (hden : 0 < den)
    (hlow : 0x10000000000000 * (den * 2 ^ e) ≤ num)
    (hhigh : num < 0x20000000000000 * (den * 2 ^ e)) : gridExponent num den = e := by
  have hle : 2 ^ (52 + e) ≤ num / den := by
    rw [Nat.le_div_iff_mul_le hden, Nat.pow_add]
    calc 2 ^ 52 * 2 ^ e * den = 0x10000000000000 * (den * 2 ^ e) := by ring
      _ ≤ num := hlow
  have hlt : num / den < 2 ^ (52 + e + 1) := by
    rw [Nat.div_lt_iff_lt_mul hden, Nat.pow_succ, Nat.pow_add]
    calc num < 0x20000000000000 * (den * 2 ^ e) := hhigh
      _ = 2 ^ 52 * 2 ^ e * 2 * den := by ring
  have hne : num / den ≠ 0 := by
    have hpos := Nat.two_pow_pos (52 + e)
    omega
  have hlog : (num / den).log2 = 52 + e := by
    have h1 := (Nat.le_log2 hne).mpr hle
    have h2 := (Nat.log2_lt hne).mpr hlt
    omega
  rw [gridExponent]
  omega

theorem nearest?_of_significand {num den : Nat} {m : Magnitude}
    (hexponent : gridExponent num den = m.exponent)
    (hsignificand : roundHalfEven num (den * 2 ^ m.exponent) = m.significand) :
    nearest? num den = some m := by
  obtain ⟨significand, exponent, hlt, hle, hnormal⟩ := m
  dsimp only at hexponent hsignificand
  subst hexponent hsignificand
  rw [nearest?, dif_pos hlt, dif_pos hle]

/-- What is rounded up to a power of two lies on the next grid. -/
theorem nearest?_of_carry {num den : Nat} {m : Magnitude}
    (hexponent : gridExponent num den + 1 = m.exponent) (hm : m.significand = 0x10000000000000)
    (hcarry : roundHalfEven num (den * 2 ^ gridExponent num den) = 0x20000000000000) :
    nearest? num den = some m := by
  obtain ⟨significand, exponent, hlt, hle, hnormal⟩ := m
  dsimp only at hexponent hm
  subst hexponent hm
  simp only [nearest?, hcarry, Nat.lt_irrefl, dif_neg, not_false_eq_true, hle, dif_pos]

/-- Each quotient in the interval of a magnitude is rounded to it. -/
theorem Rounds.nearest? {m : Magnitude} {num den : Nat} (hden : 0 < den) (h : m.Rounds num den) :
    nearest? num den = some m := by
  have hstep : 0 < den * 2 ^ m.exponent := Nat.mul_pos hden (Nat.two_pow_pos _)
  have hbelow : (m.significand + 1) * (den * 2 ^ m.exponent) ≤
      0x20000000000000 * (den * 2 ^ m.exponent) := Nat.mul_le_mul_right _ m.significand_lt
  rw [Nat.add_one_mul] at hbelow
  have hhigh := h.high
  by_cases hnarrow : m.narrowBelow
  · have hn := hnarrow
    simp only [narrowBelow, decide_eq_true_eq] at hn
    obtain ⟨hsignificand, hpositive⟩ := hn
    have hlow := h.low
    rw [hnarrow, if_pos rfl, hsignificand] at hlow
    rw [hsignificand] at hhigh
    by_cases hle : 0x10000000000000 * (den * 2 ^ m.exponent) ≤ num
    · apply nearest?_of_significand (gridExponent_eq hden hle (by omega))
      rw [hsignificand, roundHalfEven_eq_iff hstep]
      omega
    · -- from below, the quotient lies on the grid with half the step
      obtain ⟨e, he⟩ : ∃ e, m.exponent = e + 1 := ⟨m.exponent - 1, by omega⟩
      have hdouble : den * 2 ^ m.exponent = 2 * (den * 2 ^ e) := by
        rw [he, Nat.pow_succ]
        ring
      rw [hdouble] at hlow hle
      have hgrid : gridExponent num den = e :=
        gridExponent_eq hden (by omega) (by omega)
      apply nearest?_of_carry (by omega) hsignificand
      rw [hgrid, roundHalfEven_eq_iff (Nat.mul_pos hden (Nat.two_pow_pos _))]
      omega
  · have hlow := h.low
    have hodd := h.odd
    rw [if_neg hnarrow] at hlow hodd
    have hsignificand : roundHalfEven num (den * 2 ^ m.exponent) = m.significand := by
      rw [roundHalfEven_eq_iff hstep]
      omega
    rcases Nat.eq_zero_or_pos m.exponent with hzero | hpositive
    · refine nearest?_of_significand (?_ : _ = m.exponent) hsignificand
      rw [hzero, Nat.pow_zero, Nat.mul_one] at hhigh hbelow
      rw [hzero]
      exact gridExponent_eq_zero hden (by omega)
    · have hnormal : 0x10000000000000 < m.significand := by
        have hne : m.significand ≠ 0x10000000000000 := by
          intro heq
          exact hnarrow (by simp [narrowBelow, heq, hpositive])
        have hnormal := m.normal
        omega
      have hmul : (0x10000000000000 + 1) * (den * 2 ^ m.exponent) ≤
          m.significand * (den * 2 ^ m.exponent) := Nat.mul_le_mul_right _ hnormal
      rw [Nat.add_one_mul] at hmul
      exact nearest?_of_significand (gridExponent_eq hden (by omega) (by omega)) hsignificand

/-! ## Rationals that read back -/

theorem unitsPerOne_pos : 0 < unitsPerOne := by
  rw [unitsPerOne]
  apply Nat.pow_pos
  decide

-- From here on, nothing unfolds this large number.
attribute [local irreducible] unitsPerOne

theorem toRat_eq_div (m : Magnitude) : m.toRat = (m.units : Rat) / unitsPerOne := by
  rw [toRat, Rat.mkRat_eq_div, Int.cast_natCast]

theorem toRat_nonneg (m : Magnitude) : 0 ≤ m.toRat := by
  rw [m.toRat_eq_div]
  positivity

theorem toRat_eq (m : Magnitude) : m.toRat = mkRat (4 * m.units : Nat) (4 * unitsPerOne) := by
  rw [toRat, Rat.mkRat_eq_div, Rat.mkRat_eq_div]
  push_cast
  rw [mul_div_mul_left _ _ (by norm_num : (4 : Rat) ≠ 0)]

theorem mkRat_pos {a b : Nat} (ha : 0 < a) (hb : 0 < b) : 0 < mkRat a b := by
  rw [Rat.mkRat_eq_div]
  exact div_pos (by exact_mod_cast ha) (by exact_mod_cast hb)

theorem mkRat_lt_mkRat {a c b : Nat} (hac : a < c) (hb : 0 < b) : mkRat a b < mkRat c b := by
  rw [Rat.mkRat_eq_div, Rat.mkRat_eq_div]
  exact div_lt_div_of_pos_right (by exact_mod_cast hac) (by exact_mod_cast hb)

theorem mkRat_le_iff (a : Nat) {b : Nat} (hb : 0 < b) {q : Rat} (hq : 0 ≤ q) :
    mkRat a b ≤ q ↔ a * q.den ≤ q.num.natAbs * b := by
  have hb' : (0 : Rat) < b := by exact_mod_cast hb
  have hden : (0 : Rat) < q.den := by exact_mod_cast q.den_pos
  obtain ⟨n, hn⟩ := Int.eq_ofNat_of_zero_le (Rat.num_nonneg.mpr hq)
  conv_lhs => rw [Rat.mkRat_eq_div, ← Rat.num_div_den q]
  rw [div_le_div_iff₀ hb' hden, hn, Int.natAbs_natCast]
  exact_mod_cast Iff.rfl

theorem le_mkRat_iff (a : Nat) {b : Nat} (hb : 0 < b) {q : Rat} (hq : 0 ≤ q) :
    q ≤ mkRat a b ↔ q.num.natAbs * b ≤ a * q.den := by
  have hb' : (0 : Rat) < b := by exact_mod_cast hb
  have hden : (0 : Rat) < q.den := by exact_mod_cast q.den_pos
  obtain ⟨n, hn⟩ := Int.eq_ofNat_of_zero_le (Rat.num_nonneg.mpr hq)
  conv_lhs => rw [Rat.mkRat_eq_div, ← Rat.num_div_den q]
  rw [div_le_div_iff₀ hden hb', hn, Int.natAbs_natCast]
  exact_mod_cast Iff.rfl

/-- The lower end of the interval, times four, as a whole number of steps. -/
theorem lowerSteps (m : Magnitude) (hm : m.significand ≠ 0) (den : Nat) :
    (4 * m.significand - if m.narrowBelow then 1 else 2) * 2 ^ m.exponent * den +
      (if m.narrowBelow then 1 else 2) * (den * 2 ^ m.exponent) =
        4 * (m.significand * (den * 2 ^ m.exponent)) := by
  have hle : (if m.narrowBelow then 1 else 2) ≤ 4 * m.significand := by
    split <;> omega
  obtain ⟨k, hk⟩ := Nat.exists_eq_add_of_le hle
  rw [hk, Nat.add_sub_cancel_left, ← Nat.mul_assoc 4, hk]
  ring

theorem upperSteps (m : Magnitude) (den : Nat) :
    (4 * m.significand + 2) * 2 ^ m.exponent * den =
      4 * (m.significand * (den * 2 ^ m.exponent)) + 2 * (den * 2 ^ m.exponent) := by
  ring

theorem roundsFrom_pos {m : Magnitude} (hm : m.significand ≠ 0) : 0 < m.roundsFrom := by
  refine mkRat_pos (Nat.mul_pos ?_ (Nat.two_pow_pos _)) (Nat.mul_pos (by decide) unitsPerOne_pos)
  split <;> omega

theorem readsBack_ends {m : Magnitude} {q : Rat} (h : m.readsBack q) :
    (m.roundsFrom ≤ q ∧ q ≤ m.roundsUpTo) ∧
      (m.significand % 2 = 1 → ¬ q ≤ m.roundsFrom ∧ ¬ m.roundsUpTo ≤ q) := by
  rw [readsBack] at h
  split at h
  · refine ⟨of_decide_eq_true h, ?_⟩
    omega
  · have hstrict := of_decide_eq_true h
    exact ⟨⟨hstrict.1.le, hstrict.2.le⟩, fun _ => ⟨not_le.mpr hstrict.1, not_le.mpr hstrict.2⟩⟩

/-- A rational that reads back as a magnitude is positive and lies in its interval. -/
theorem rounds_of_readsBack {m : Magnitude} (hm : m.significand ≠ 0) {q : Rat}
    (h : m.readsBack q) : 0 < q ∧ m.Rounds (q.num.natAbs * unitsPerOne) q.den := by
  obtain ⟨⟨hfrom, hupTo⟩, hodd⟩ := readsBack_ends h
  have hq : 0 < q := lt_of_lt_of_le (roundsFrom_pos hm) hfrom
  have hunits : 0 < 4 * unitsPerOne := Nat.mul_pos (by decide) unitsPerOne_pos
  have hlower := m.lowerSteps hm q.den
  have hupper := m.upperSteps q.den
  rw [roundsFrom, mkRat_le_iff _ hunits hq.le] at hfrom
  rw [roundsUpTo, le_mkRat_iff _ hunits hq.le] at hupTo
  rw [roundsFrom, le_mkRat_iff _ hunits hq.le, roundsUpTo, mkRat_le_iff _ hunits hq.le] at hodd
  rw [Nat.mul_left_comm] at hfrom hupTo hodd
  exact ⟨hq, by omega, by omega, by omega⟩

theorem rounds_zero (den : Nat) : zero.Rounds 0 den := by
  constructor <;> simp [zero]

theorem eq_zero_of_significand {m : Magnitude} (hm : m.significand = 0) : m = zero := by
  obtain ⟨significand, exponent, hlt, hle, hnormal⟩ := m
  dsimp only at hm
  subst hm
  obtain rfl : exponent = 0 := by omega
  rfl

/-- A magnitude is in its own interval, off both ends. -/
theorem readsBack_toRat {m : Magnitude} (hm : m.significand ≠ 0) : m.readsBack m.toRat := by
  have hstep : 0 < 2 ^ m.exponent := Nat.two_pow_pos _
  have hlower : (4 * m.significand - if m.narrowBelow then 1 else 2) * 2 ^ m.exponent <
      4 * m.units := by
    rw [units, ← Nat.mul_assoc]
    refine Nat.mul_lt_mul_of_pos_right ?_ hstep
    split <;> omega
  have hupper : 4 * m.units < (4 * m.significand + 2) * 2 ^ m.exponent := by
    rw [units, ← Nat.mul_assoc]
    exact Nat.mul_lt_mul_of_pos_right (by omega) hstep
  have hunits : 0 < 4 * unitsPerOne := Nat.mul_pos (by decide) unitsPerOne_pos
  have hfrom : m.roundsFrom < m.toRat := by
    rw [toRat_eq, roundsFrom]
    exact mkRat_lt_mkRat hlower hunits
  have hupTo : m.toRat < m.roundsUpTo := by
    rw [toRat_eq, roundsUpTo]
    exact mkRat_lt_mkRat hupper hunits
  rw [readsBack]
  split
  · exact decide_eq_true ⟨hfrom.le, hupTo.le⟩
  · exact decide_eq_true ⟨hfrom, hupTo⟩

end Magnitude

namespace Binary64

theorem nearest_of_nearest? {q : Rat} {m : Magnitude} (zeroNegative : Bool)
    (h : Magnitude.nearest? (q.num.natAbs * Magnitude.unitsPerOne) q.den = some m) :
    nearest zeroNegative q =
      finite (if q.num = 0 then zeroNegative else decide (q.num < 0)) m := by
  simp only [nearest, h, Option.elim_some]

theorem nearest_zero (s : Bool) : nearest s 0 = finite s .zero := by
  have hrounds : Magnitude.nearest? ((0 : Rat).num.natAbs * Magnitude.unitsPerOne)
      (0 : Rat).den = some .zero := by
    rw [Rat.num_zero, Rat.den_zero, Int.natAbs_zero, Nat.zero_mul]
    exact (Magnitude.rounds_zero 1).nearest? Nat.one_pos
  rw [nearest_of_nearest? s hrounds, if_pos Rat.num_zero]

/-- What reads back as a magnitude is rounded to it, with either sign. -/
theorem nearest_of_readsBack {m : Magnitude} (hm : m.significand ≠ 0) {q : Rat}
    (h : m.readsBack q) (zeroNegative s : Bool) :
    nearest zeroNegative (if s then -q else q) = finite s m := by
  obtain ⟨hq, hrounds⟩ := Magnitude.rounds_of_readsBack hm h
  have hnum : 0 < q.num := Rat.num_pos.mpr hq
  have hnearest := hrounds.nearest? q.den_pos
  cases s with
  | false =>
      rw [if_neg Bool.false_ne_true, nearest_of_nearest? zeroNegative hnearest,
        if_neg (by omega), decide_eq_false (by omega)]
  | true =>
      have hneg : (-q).num = -q.num := Rat.num_neg_eq_neg_num q
      have hnearest' : Magnitude.nearest? ((-q).num.natAbs * Magnitude.unitsPerOne) (-q).den =
          some m := by
        rw [hneg, Int.natAbs_neg, Rat.den_neg_eq_den]
        exact hnearest
      rw [if_pos rfl, nearest_of_nearest? zeroNegative hnearest', hneg, if_neg (by omega),
        decide_eq_true (by omega)]

end Binary64

end TimingChart
