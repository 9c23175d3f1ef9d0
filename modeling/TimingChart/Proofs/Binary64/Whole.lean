import TimingChart.Proofs.Binary64.Operations

/-! # Results between bounds, and their whole parts

What lies between two values of doubles stays there when it is rounded, and whole parts that are
small enough are exact. So a chain of operations can be followed by the bounds of its results. -/

namespace TimingChart.Binary64

open Magnitude (limit unitsPerOne unitsPerOne_pos roundedUnits)

attribute [local irreducible] limit unitsPerOne

variable {x y : Binary64}

/-! ## Values of doubles -/

/-- A double has this value. -/
def IsExact (q : Rat) : Prop := ∃ x : Binary64, x.isFinite ∧ x.toRat = q

theorem isExact_intCast {n : Int} (hn : n.natAbs ≤ 0x20000000000000) : IsExact n :=
  ⟨ofInt n, ofInt_spec hn⟩

theorem isExact_zero : IsExact 0 := ⟨0, zero_spec⟩

/-- Numbers of at most 53 bits, times a power of two, are magnitudes. -/
theorem exists_units_eq {n k : Nat} (hn : n ≤ 2 ^ 53) (hlimit : n * 2 ^ k < limit) :
    ∃ m : Magnitude, m.units = n * 2 ^ k := by
  have hrounded : roundedUnits (n * 2 ^ k) 1 = n * 2 ^ k := roundedUnits_of_dvd (dvd_of_le hn)
  rcases @Magnitude.nearest?_cases (n * 2 ^ k) 1 Nat.one_pos with ⟨m, -, hunits⟩ | ⟨-, hlarge⟩
  · exact ⟨m, hunits.trans hrounded⟩
  · rw [hrounded] at hlarge
    exact absurd hlimit (Nat.not_lt.mpr hlarge)

/-- The exponent is hidden here, as powers like `2 ^ 1073` are not to be evaluated. -/
theorem exists_unitsPerOne_eq : ∃ k : Nat, k ≤ 1073 ∧ unitsPerOne = 2 * 2 ^ k := by
  have hsucc : ∀ e k : Nat, e = k + 1 → 2 ^ e = 2 * 2 ^ k := by
    rintro _ k rfl
    exact Nat.pow_succ'
  refine ⟨1073, Nat.le_refl _, ?_⟩
  rw [unitsPerOne]
  exact hsucc 1074 1073 rfl

/-- Halves of whole numbers are doubles. -/
theorem isExact_half {n : Int} (hn : n.natAbs ≤ 0x20000000000000) : IsExact (n / 2) := by
  obtain ⟨k, hk, hunits⟩ := exists_unitsPerOne_eq
  have hlimit : n.natAbs * 2 ^ k < limit := by
    rw [limit]
    exact Magnitude.mul_lt_two_pow (a := 54) (b := 2044) (k := 2098)
      (Nat.lt_of_le_of_lt hn (by decide)) (by omega) rfl
  obtain ⟨m, hm⟩ := exists_units_eq hn hlimit
  have hvalue : m.toRat = n.natAbs / 2 := by
    have hpow : ((2 ^ k : Nat) : Rat) ≠ 0 := by exact_mod_cast (Nat.two_pow_pos k).ne'
    rw [m.toRat_eq_div, hm, hunits, Nat.cast_mul, Nat.cast_mul, mul_div_mul_right _ _ hpow,
      Nat.cast_two]
  refine ⟨finite (decide (n < 0)) m, rfl, ?_⟩
  rw [toRat_finite, hvalue]
  rcases lt_or_ge n 0 with hneg | hpos
  · rw [if_pos (decide_eq_true hneg), ← neg_div, Nat.cast_natAbs, abs_of_neg hneg]
    push_cast
    rw [neg_neg]
  · rw [if_neg (by simpa using hpos), Nat.cast_natAbs, abs_of_nonneg hpos]

/-! ## Between two values -/

/-- A finite double from one rational to another. -/
structure IsBetween (x : Binary64) (low high : Rat) : Prop where
  finite : x.isFinite
  low_le : low ≤ x.toRat
  le_high : x.toRat ≤ high

/-- What lies between the values of doubles is rounded to a double there. -/
theorem isBetween_nearest (s : Bool) {q low high : Rat} (hlow : IsExact low) (hhigh : IsExact high)
    (hle : low ≤ q) (hle' : q ≤ high) : (nearest s q).IsBetween low high := by
  obtain ⟨x, hx, rfl⟩ := hlow
  obtain ⟨y, hy, rfl⟩ := hhigh
  have hfinite := isFinite_nearest s hx hy hle hle'
  exact ⟨hfinite, (le_iff_toRat hx hfinite).mp (le_nearest s hx hle),
    (le_iff_toRat hfinite hy).mp (nearest_le s hy hle')⟩

/-- Two results are in the order of the exact values that they are rounded from. -/
theorem toRat_le_of_nearest {q q' : Rat} (hx : ∃ s, x = nearest s q) (hy : ∃ s, y = nearest s q')
    (h : q ≤ q') (hxfinite : x.isFinite) (hyfinite : y.isFinite) : x.toRat ≤ y.toRat := by
  obtain ⟨s, rfl⟩ := hx
  obtain ⟨t, rfl⟩ := hy
  exact (le_iff_toRat hxfinite hyfinite).mp (nearest_mono s t h)

theorem mul_eq_nearest (hx : x.isFinite) (hy : y.isFinite) :
    ∃ s, x * y = nearest s (x.toRat * y.toRat) := by
  cases x with
  | nan => cases hx
  | infinite s => cases hx
  | finite s m =>
      cases y with
      | nan => cases hy
      | infinite t => cases hy
      | finite t n => exact ⟨s ^^ t, rfl⟩

theorem exists_infinite_of_nearest {s : Bool} {q : Rat} (h : ¬ (nearest s q).isFinite) :
    ∃ t, nearest s q = infinite t := by
  rw [nearest] at h ⊢
  cases hnearest : Magnitude.nearest? (q.num.natAbs * unitsPerOne) q.den with
  | none => exact ⟨_, rfl⟩
  | some m =>
      rw [hnearest] at h
      exact absurd rfl h

/-- Nothing is left of a number divided by infinity, and infinity divided by it is no number. -/
theorem div_infinite (x : Binary64) (t : Bool) :
    x / infinite t = nan ∨ (x / infinite t).IsBetween 0 0 := by
  cases x with
  | nan => exact .inl rfl
  | infinite s => exact .inl rfl
  | finite s m => exact .inr ⟨rfl, (toRat_zero _).ge, (toRat_zero _).le⟩

/-- Different doubles are at least one unit apart, so that their difference is not rounded to
zero. -/
theorem toRat_sub_pos (hx : x.isFinite) (hy : y.isFinite) (hlt : y.toRat < x.toRat)
    (h : (x - y).isFinite) : 0 < (x - y).toRat := by
  obtain ⟨m, hm⟩ : ∃ m : Magnitude, m.units = 1 :=
    ⟨⟨1, 0, by decide, by decide, .inl rfl⟩, rfl⟩
  have hpos : (0 : Rat) < unitsPerOne := by exact_mod_cast unitsPerOne_pos
  have hunit : (finite false m).toRat = 1 / unitsPerOne := by
    rw [toRat, units, hm, Rat.mkRat_eq_div, Nat.cast_one, Int.cast_one]
  have happart : (finite false m).toRat ≤ x.toRat - y.toRat := by
    rw [← lt_iff_toRat hy hx, lt_iff_units hy hx] at hlt
    rw [hunit, toRat, toRat, Rat.mkRat_eq_div, Rat.mkRat_eq_div, ← sub_div]
    refine div_le_div_of_nonneg_right ?_ hpos.le
    have hstep : y.units + 1 ≤ x.units := hlt
    have hcast : (y.units : Rat) + 1 ≤ x.units := by exact_mod_cast hstep
    linarith
  obtain ⟨s, hs⟩ := sub_eq_nearest hx hy
  have hle := le_nearest s rfl happart
  rw [← hs, le_iff_toRat rfl h, hunit] at hle
  exact (div_pos one_pos hpos).trans_le hle

/-- Doubles in order are not equal. -/
theorem equals_eq_false_of_lt (h : x < y) : x.equals y = false := by
  obtain ⟨a, b, ha, hb, hab⟩ := lt_iff_position.mp h
  rw [equals, compares, ha, hb]
  exact decide_eq_false hab.ne

theorem equals_of_le_of_not_lt (hx : x.isFinite) (hy : y.isFinite) (hle : x ≤ y) (hnot : ¬ x < y) :
    x.equals y = true := by
  rw [le_iff_units hx hy] at hle
  rw [lt_iff_units hx hy] at hnot
  rw [equals, compares, position_of_isFinite hx, position_of_isFinite hy]
  exact decide_eq_true (by omega)

/-! ## Operations keep the order -/

section Order

variable {x' : Binary64} (hx : x.isFinite) (hx' : x'.isFinite) (hy : y.isFinite)
  (hle : x.toRat ≤ x'.toRat)
include hx hx' hy hle

theorem toRat_add_le (h : (x + y).isFinite) (h' : (x' + y).isFinite) :
    (x + y).toRat ≤ (x' + y).toRat :=
  toRat_le_of_nearest (add_eq_nearest hx hy) (add_eq_nearest hx' hy) (by linarith) h h'

theorem toRat_sub_le (h : (x - y).isFinite) (h' : (x' - y).isFinite) :
    (x - y).toRat ≤ (x' - y).toRat :=
  toRat_le_of_nearest (sub_eq_nearest hx hy) (sub_eq_nearest hx' hy) (by linarith) h h'

theorem toRat_div_le (hpos : 0 < y.toRat) (h : (x / y).isFinite) (h' : (x' / y).isFinite) :
    (x / y).toRat ≤ (x' / y).toRat := by
  have hquotient := div_le_div_of_nonneg_right hle hpos.le
  exact toRat_le_of_nearest (div_eq_nearest hx hy hpos.ne') (div_eq_nearest hx' hy hpos.ne')
    hquotient h h'

theorem toRat_mul_le (h : (y * x).isFinite) (h' : (y * x').isFinite) :
    (0 ≤ y.toRat → (y * x).toRat ≤ (y * x').toRat) ∧
      (y.toRat ≤ 0 → (y * x').toRat ≤ (y * x).toRat) := by
  have hproduct := mul_eq_nearest hy hx
  have hproduct' := mul_eq_nearest hy hx'
  constructor
  · intro hnonneg
    exact toRat_le_of_nearest hproduct hproduct' (mul_le_mul_of_nonneg_left hle hnonneg) h h'
  · intro hnonpos
    exact toRat_le_of_nearest hproduct' hproduct (mul_le_mul_of_nonpos_left hle hnonpos) h' h

end Order

/-! ## Whole parts -/

theorem nearest_of_isExact (s : Bool) {q : Rat} (hq : IsExact q) :
    (nearest s q).isFinite ∧ (nearest s q).toRat = q := by
  obtain ⟨hfinite, hle, hge⟩ := isBetween_nearest s hq hq le_rfl le_rfl
  exact ⟨hfinite, le_antisymm hge hle⟩

theorem nearest_intCast (s : Bool) {n : Int} (hn : n.natAbs ≤ 0x20000000000000) :
    (nearest s n).isFinite ∧ (nearest s n).toRat = n :=
  nearest_of_isExact s (isExact_intCast hn)

theorem floor_eq_nearest (hx : x.isFinite) : ∃ s, x.floor = nearest s (⌊x.toRat⌋ : Int) := by
  cases x with
  | nan => cases hx
  | infinite s => cases hx
  | finite s m =>
      refine ⟨s, ?_⟩
      rw [toRat, Rat.mkRat_eq_div, Rat.floor_intCast_div_natCast]
      rfl

theorem ceil_eq_nearest (hx : x.isFinite) : ∃ s, x.ceil = nearest s (⌈x.toRat⌉ : Int) := by
  cases x with
  | nan => cases hx
  | infinite s => cases hx
  | finite s m =>
      refine ⟨s, ?_⟩
      rw [toRat, Rat.mkRat_eq_div, Rat.ceil_intCast_div_natCast]
      rfl

/-- Whole numbers of 32 bits are converted exactly. -/
theorem toInt32_of_toRat_eq (hx : x.isFinite) {n : Int} (h : x.toRat = n)
    (hlow : -0x80000000 ≤ n) (hhigh : n ≤ 0x7FFFFFFF) : x.toInt32 = n := by
  have hpos : (0 : Int) < unitsPerOne := by exact_mod_cast unitsPerOne_pos
  have hunits : x.units = n * unitsPerOne := by
    have hne : (unitsPerOne : Rat) ≠ 0 := by exact_mod_cast unitsPerOne_pos.ne'
    rw [toRat, Rat.mkRat_eq_div, div_eq_iff hne] at h
    exact_mod_cast h
  cases x with
  | nan => cases hx
  | infinite s => cases hx
  | finite s m =>
      rw [toInt32, hunits, Int.mul_tdiv_cancel _ hpos.ne']
      have hmin : Int32.minValue.toInt = -0x80000000 := by decide
      have hmax : Int32.maxValue.toInt = 0x7FFFFFFF := by decide
      rw [hmin, hmax]
      omega

/-- The conversion of a double that has been rounded to a whole number. -/
theorem toInt32_nearest (s : Bool) {n : Int} (hlow : -0x80000000 ≤ n) (hhigh : n ≤ 0x7FFFFFFF) :
    (nearest s n).toInt32 = n := by
  obtain ⟨hfinite, hvalue⟩ := nearest_intCast s (n := n) (by omega)
  exact toInt32_of_toRat_eq hfinite hvalue hlow hhigh

/-- Half a step above a whole number, the whole part is at most this number. -/
theorem IsBetween.floor_le {n : Int} (h : x.IsBetween 0 ((2 * n + 1 : Int) / 2)) :
    0 ≤ ⌊x.toRat⌋ ∧ ⌊x.toRat⌋ ≤ n := by
  have hhigh := h.le_high
  push_cast at hhigh
  exact ⟨Int.floor_nonneg.mpr h.low_le, Int.lt_add_one_iff.mp (Int.floor_lt.mpr (by
    push_cast
    linarith))⟩

theorem IsBetween.le_ceil {n : Int} (h : x.IsBetween ((2 * n - 1 : Int) / 2) 0) :
    n ≤ ⌈x.toRat⌉ ∧ ⌈x.toRat⌉ ≤ 0 := by
  have hlow := h.low_le
  push_cast at hlow
  refine ⟨Int.sub_one_lt_iff.mp (Int.lt_ceil.mpr ?_), Int.ceil_le.mpr (by exact_mod_cast h.le_high)⟩
  push_cast
  linarith

theorem toInt32_floor (hx : x.isFinite) (hlow : -0x80000000 ≤ ⌊x.toRat⌋)
    (hhigh : ⌊x.toRat⌋ ≤ 0x7FFFFFFF) : x.floor.toInt32 = ⌊x.toRat⌋ := by
  obtain ⟨s, hs⟩ := floor_eq_nearest hx
  rw [hs, toInt32_nearest s hlow hhigh]

theorem toInt32_ceil (hx : x.isFinite) (hlow : -0x80000000 ≤ ⌈x.toRat⌉)
    (hhigh : ⌈x.toRat⌉ ≤ 0x7FFFFFFF) : x.ceil.toInt32 = ⌈x.toRat⌉ := by
  obtain ⟨s, hs⟩ := ceil_eq_nearest hx
  rw [hs, toInt32_nearest s hlow hhigh]

/-! ## From a value on -/

/-- A finite double from a rational on, or infinity. -/
def IsAtLeast (x : Binary64) (low : Rat) : Prop := x = infinite false ∨ x.isFinite ∧ low ≤ x.toRat

theorem isAtLeast_of_le (hx : x.isFinite) (h : x ≤ y) : y.IsAtLeast x.toRat := by
  cases y with
  | nan =>
      obtain ⟨a, b, -, hb, -⟩ := le_iff_position.mp h
      cases hb
  | finite s m => exact .inr ⟨rfl, (le_iff_toRat hx rfl).mp h⟩
  | infinite s =>
      cases s with
      | false => exact .inl rfl
      | true =>
          have hlimit := natAbs_units_lt hx
          obtain ⟨a, b, ha, hb, hab⟩ := le_iff_position.mp h
          rw [position_of_isFinite hx] at ha
          rw [position_infinite, if_pos rfl] at hb
          obtain rfl := Option.some.inj ha
          obtain rfl := Option.some.inj hb
          omega

theorem isAtLeast_nearest (s : Bool) {q low : Rat} (hlow : IsExact low) (h : low ≤ q) :
    (nearest s q).IsAtLeast low := by
  obtain ⟨x, hx, rfl⟩ := hlow
  exact isAtLeast_of_le hx (le_nearest s hx h)

theorem infinite_le_self (s : Bool) : infinite s ≤ infinite s :=
  le_iff_position.mpr ⟨_, _, position_infinite s, position_infinite s, Int.le_refl _⟩

theorem le_infinite (hx : x.isFinite) : x ≤ infinite false := by
  have hlimit := natAbs_units_lt hx
  refine le_iff_position.mpr ⟨_, _, position_of_isFinite hx, position_infinite _, ?_⟩
  rw [if_neg Bool.false_ne_true]
  omega

/-- A positive value has no sign and is no zero. -/
theorem parts_of_pos {s : Bool} {m : Magnitude} (h : 0 < (finite s m).toRat) :
    s = false ∧ m.significand ≠ 0 := by
  constructor
  · cases s with
    | false => rfl
    | true =>
        have hnonneg := abs_nonneg (finite true m).toRat
        rw [abs_toRat_finite] at hnonneg
        rw [toRat_finite, if_pos rfl] at h
        linarith
  · intro hzero
    rw [Magnitude.eq_zero_of_significand hzero, toRat_zero] at h
    exact h.false

namespace IsAtLeast

variable {low low' : Rat}

theorem mono (h : x.IsAtLeast low) (hle : low' ≤ low) : x.IsAtLeast low' :=
  h.imp_right fun hfinite => ⟨hfinite.1, hle.trans hfinite.2⟩

theorem floor {n : Int} (hn : n.natAbs ≤ 0x20000000000000) (h : x.IsAtLeast n) :
    x.floor.IsAtLeast n := by
  rcases h with rfl | ⟨hx, hle⟩
  · exact .inl rfl
  · obtain ⟨s, hs⟩ := floor_eq_nearest hx
    rw [hs]
    exact isAtLeast_nearest s (isExact_intCast hn) (by exact_mod_cast Int.le_floor.mpr hle)

section Scaled

variable (hx : x.IsAtLeast low) (hy : y.isFinite) (hpos : 0 < y.toRat) (hlow' : IsExact low')
include hx hy hpos hlow'

theorem mul (hle : low' ≤ low * y.toRat) : (x * y).IsAtLeast low' := by
  rcases hx with rfl | ⟨hx, hge⟩
  · cases y with
    | nan => cases hy
    | infinite s => cases hy
    | finite s m =>
        obtain ⟨rfl, hne⟩ := parts_of_pos hpos
        exact .inl (if_neg hne)
  · obtain ⟨s, hs⟩ := mul_eq_nearest hx hy
    rw [hs]
    exact isAtLeast_nearest s hlow' (hle.trans (mul_le_mul_of_nonneg_right hge hpos.le))

theorem div (hle : low' ≤ low / y.toRat) : (x / y).IsAtLeast low' := by
  rcases hx with rfl | ⟨hx, hge⟩
  · cases y with
    | nan => cases hy
    | infinite s => cases hy
    | finite s m =>
        obtain ⟨rfl, -⟩ := parts_of_pos hpos
        exact .inl rfl
  · obtain ⟨s, hs⟩ := div_eq_nearest hx hy hpos.ne'
    rw [hs]
    exact isAtLeast_nearest s hlow' (hle.trans (div_le_div_of_nonneg_right hge hpos.le))

end Scaled

/-- Adding what is not negative gives nothing smaller, overflows included. -/
theorem le_add (hx : x.IsAtLeast low) (hy : y.IsAtLeast 0) : x ≤ x + y := by
  rcases hx with rfl | ⟨hx, -⟩
  · have hsum : infinite false + y = infinite false := by
      rcases hy with rfl | ⟨hy, -⟩
      · rfl
      · cases y with
        | finite s m => rfl
        | nan => cases hy
        | infinite s => cases hy
    rw [hsum]
    exact infinite_le_self false
  · rcases hy with rfl | ⟨hy, hnonneg⟩
    · cases x with
      | finite s m => exact le_infinite hx
      | nan => cases hx
      | infinite s => cases hx
    · exact Binary64.le_add hx hy hnonneg

end IsAtLeast

end TimingChart.Binary64
