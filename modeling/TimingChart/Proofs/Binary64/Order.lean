import TimingChart.Binary64.Arith
import TimingChart.Proofs.Binary64.Rounding

/-! # The order of doubles

Rounding to the nearest double never swaps two rationals, and it gives every double back. So what
lies between two doubles is rounded to a double between them. -/

namespace TimingChart

/-! ## Whole numbers -/

theorem roundHalfEven_le {num den n : Nat} (hden : 0 < den) (h : num < n * den) :
    roundHalfEven num den ≤ n := by
  obtain ⟨hlow, -, hodd⟩ := (roundHalfEven_eq_iff hden).mp (rfl : roundHalfEven num den = _)
  by_contra hgt
  have hmul : (n + 1) * den ≤ roundHalfEven num den * den := Nat.mul_le_mul_right den (by omega)
  rw [Nat.add_one_mul] at hmul
  omega

/-- The smaller of two quotients is not rounded up beyond the larger one. -/
theorem roundHalfEven_mono {num den num' den' : Nat} (hden : 0 < den) (hden' : 0 < den')
    (h : num * den' ≤ num' * den) : roundHalfEven num den ≤ roundHalfEven num' den' := by
  obtain ⟨hlow, -, hodd⟩ := (roundHalfEven_eq_iff hden).mp (rfl : roundHalfEven num den = _)
  obtain ⟨-, hhigh', hodd'⟩ := (roundHalfEven_eq_iff hden').mp (rfl : roundHalfEven num' den' = _)
  generalize roundHalfEven num den = n at *
  generalize roundHalfEven num' den' = n' at *
  by_contra hgt
  -- over the common denominator, `n` is at most one more than `n'`, and then both are ties
  have hn : 2 * (n * (den * den')) ≤ 2 * (num * den') + den * den' := by
    have hmul := Nat.mul_le_mul_right den' hlow
    linarith
  have hn' : 2 * (num' * den) ≤ 2 * (n' * (den * den')) + den * den' := by
    have hmul := Nat.mul_le_mul_right den hhigh'
    linarith
  have hpos : 0 < den * den' := Nat.mul_pos hden hden'
  have hnext : n = n' + 1 := by
    by_contra hne
    have hmul : (n' + 2) * (den * den') ≤ n * (den * den') :=
      Nat.mul_le_mul_right _ (by omega)
    rw [Nat.add_mul] at hmul
    omega
  rcases Nat.mod_two_eq_zero_or_one n with heven | hodd₁
  · have hstrict := (hodd' (by omega)).2
    have hmul := Nat.mul_lt_mul_of_pos_right hstrict hden
    rw [hnext, Nat.add_one_mul] at hn
    linarith
  · have hstrict := (hodd hodd₁).1
    have hmul := Nat.mul_lt_mul_of_pos_right hstrict hden'
    rw [hnext, Nat.add_one_mul] at hmul
    linarith

/-! ## Magnitudes -/

namespace Magnitude

/-- Exponents are kept as variables here, as powers like `2 ^ 2098` are not to be evaluated. -/
theorem two_pow_le_mul {a b k s e : Nat} (hs : 2 ^ a ≤ s) (he : b ≤ e) (hk : a + b = k) :
    2 ^ k ≤ s * 2 ^ e := by
  rw [← hk, Nat.pow_add]
  exact Nat.mul_le_mul hs (Nat.pow_le_pow_right (by decide) he)

theorem mul_lt_two_pow {a b k s e : Nat} (hs : s < 2 ^ a) (he : e ≤ b) (hk : a + b = k) :
    s * 2 ^ e < 2 ^ k := by
  rw [← hk, Nat.pow_add]
  exact Nat.mul_lt_mul_of_lt_of_le hs (Nat.pow_le_pow_right (by decide) he) (Nat.two_pow_pos b)

/-- All magnitudes are below this number of units, and infinity stands there. -/
def limit : Nat := 2 ^ (2098 : Nat)

theorem units_lt (m : Magnitude) : m.units < limit := by
  rw [limit]
  exact mul_lt_two_pow (a := 53) (k := 2098) m.significand_lt m.exponent_le rfl

/-- The units that a quotient is rounded to, if magnitudes had no end. -/
def roundedUnits (num den : Nat) : Nat :=
  roundHalfEven num (den * 2 ^ gridExponent num den) * 2 ^ gridExponent num den

section Grid

variable {num den num' den' : Nat} (hden : 0 < den)
include hden

/-- At most 53 bits are left before the point. -/
theorem lt_grid : num < 0x20000000000000 * (den * 2 ^ gridExponent num den) := by
  have hlog : num / den < 2 ^ (53 + gridExponent num den) := by
    refine Nat.lt_of_lt_of_le Nat.lt_log2_self (Nat.pow_le_pow_right (by decide) ?_)
    rw [gridExponent]
    omega
  rw [Nat.div_lt_iff_lt_mul hden, Nat.pow_add] at hlog
  calc num < 2 ^ 53 * 2 ^ gridExponent num den * den := hlog
    _ = 0x20000000000000 * (den * 2 ^ gridExponent num den) := by ring

theorem significand_le :
    roundHalfEven num (den * 2 ^ gridExponent num den) ≤ 0x20000000000000 :=
  roundHalfEven_le (Nat.mul_pos hden (Nat.two_pow_pos _)) (lt_grid hden)

theorem gridExponent_mono (hden' : 0 < den') (h : num * den' ≤ num' * den) :
    gridExponent num den ≤ gridExponent num' den' := by
  have hdiv : num / den ≤ num' / den' := by
    rw [Nat.le_div_iff_mul_le hden']
    refine Nat.le_of_mul_le_mul_right ?_ hden
    calc num / den * den' * den = num / den * den * den' := by ring
      _ ≤ num * den' := Nat.mul_le_mul_right den' (Nat.div_mul_le_self num den)
      _ ≤ num' * den := h
  have hlog : (num / den).log2 ≤ (num' / den').log2 := by
    by_cases hzero : num / den = 0
    · simp [hzero]
    · have hpos := Nat.lt_of_lt_of_le (Nat.pos_of_ne_zero hzero) hdiv
      exact (Nat.le_log2 (Nat.ne_of_gt hpos)).mpr ((Nat.log2_self_le hzero).trans hdiv)
  exact Nat.sub_le_sub_right hlog 52

theorem roundedUnits_mono (hden' : 0 < den') (h : num * den' ≤ num' * den) :
    roundedUnits num den ≤ roundedUnits num' den' := by
  have hexponent := gridExponent_mono hden hden' h
  have hstep : 0 < den * 2 ^ gridExponent num den := Nat.mul_pos hden (Nat.two_pow_pos _)
  rcases Nat.eq_or_lt_of_le hexponent with heq | hlt
  · rw [roundedUnits, roundedUnits, heq]
    rw [heq] at hstep
    refine Nat.mul_le_mul_right _ (roundHalfEven_mono hstep
      (Nat.mul_pos hden' (Nat.two_pow_pos _)) ?_)
    have hmul := Nat.mul_le_mul_right (2 ^ gridExponent num' den') h
    linarith
  · -- a power of two lies between the two grids
    have hnormal := (significand_normal num' den').resolve_left (by omega)
    have hpow : 2 ^ (gridExponent num den + 1) ≤ 2 ^ gridExponent num' den' :=
      Nat.pow_le_pow_right (by decide) hlt
    calc roundedUnits num den ≤ 0x20000000000000 * 2 ^ gridExponent num den :=
          Nat.mul_le_mul_right _ (significand_le hden)
      _ = 0x10000000000000 * 2 ^ (gridExponent num den + 1) := by ring
      _ ≤ 0x10000000000000 * 2 ^ gridExponent num' den' := Nat.mul_le_mul_left _ hpow
      _ ≤ roundedUnits num' den' := Nat.mul_le_mul_right _ hnormal

/-- A quotient is rounded to these units, unless they are beyond all magnitudes. -/
theorem nearest?_cases :
    (∃ m, nearest? num den = some m ∧ m.units = roundedUnits num den) ∨
      nearest? num den = none ∧ limit ≤ roundedUnits num den := by
  have hle : roundHalfEven num (den * 2 ^ gridExponent num den) ≤ 0x20000000000000 :=
    significand_le hden
  rw [nearest?, roundedUnits, limit]
  split
  next hlt =>
    split
    next hexponent => exact .inl ⟨_, rfl, rfl⟩
    next hexponent =>
      have hnormal := (significand_normal num den).resolve_left (by omega)
      have hexponent := Nat.lt_of_not_le hexponent
      exact .inr ⟨rfl, two_pow_le_mul (a := 52) (k := 2098) hnormal hexponent rfl⟩
  next hlt =>
    have heq : roundHalfEven num (den * 2 ^ gridExponent num den) = 0x20000000000000 := by omega
    rw [heq]
    split
    next hexponent =>
      refine .inl ⟨_, rfl, ?_⟩
      rw [units]
      ring
    next hexponent =>
      have hexponent : 2045 ≤ gridExponent num den := by omega
      exact .inr ⟨rfl, two_pow_le_mul (a := 53) (k := 2098) (Nat.le_refl _) hexponent rfl⟩

end Grid

end Magnitude

/-! ## Doubles -/

namespace Binary64

open Magnitude (limit unitsPerOne unitsPerOne_pos roundedUnits)

theorem position_infinite (s : Bool) :
    (infinite s).position = some (if s then -(limit : Int) else limit) := by
  have hlimit : (limit : Int) = 2 ^ (2098 : Nat) := by
    have hcast : ∀ k : Nat, ((2 ^ k : Nat) : Int) = 2 ^ k := fun k => Int.natCast_pow 2 k
    rw [limit, hcast 2098]
  cases s
  · exact congrArg some hlimit.symm
  · exact congrArg (fun a : Int => some (-a)) hlimit.symm

-- From here on, nothing unfolds these large numbers.
attribute [local irreducible] limit unitsPerOne

variable {x y z : Binary64}

theorem le_iff_position :
    x ≤ y ↔ ∃ a b, x.position = some a ∧ y.position = some b ∧ a ≤ b := by
  change compares (fun a b => decide (a ≤ b)) x y = true ↔ _
  unfold compares
  cases x.position <;> cases y.position <;> simp

theorem lt_iff_position :
    x < y ↔ ∃ a b, x.position = some a ∧ y.position = some b ∧ a < b := by
  change compares (fun a b => decide (a < b)) x y = true ↔ _
  unfold compares
  cases x.position <;> cases y.position <;> simp

theorem position_of_isFinite (hx : x.isFinite) : x.position = some x.units := by
  cases x with
  | finite s m => rfl
  | nan => cases hx
  | infinite s => cases hx

theorem natAbs_units (s : Bool) (m : Magnitude) : (finite s m).units.natAbs = m.units := by
  cases s
  · exact Int.natAbs_natCast _
  · exact (Int.natAbs_neg _).trans (Int.natAbs_natCast _)

theorem natAbs_units_lt (hx : x.isFinite) : x.units.natAbs < limit := by
  cases x with
  | finite s m => exact natAbs_units s m ▸ m.units_lt
  | nan => cases hx
  | infinite s => cases hx

/-- A double that stands before infinity is finite. -/
theorem isFinite_of_position {a : Int} (h : x.position = some a) (ha : a.natAbs < limit) :
    x.isFinite ∧ x.units = a := by
  cases x with
  | nan => cases h
  | finite s m => exact ⟨rfl, Option.some.inj h⟩
  | infinite s =>
      rw [position_infinite] at h
      obtain rfl := Option.some.inj h
      cases s
      · rw [if_neg Bool.false_ne_true, Int.natAbs_natCast] at ha
        exact absurd ha (Nat.lt_irrefl _)
      · rw [if_pos rfl, Int.natAbs_neg, Int.natAbs_natCast] at ha
        exact absurd ha (Nat.lt_irrefl _)

theorem le_trans (hxy : x ≤ y) (hyz : y ≤ z) : x ≤ z := by
  obtain ⟨a, b, ha, hb, hab⟩ := le_iff_position.mp hxy
  obtain ⟨b', c, hb', hc, hbc⟩ := le_iff_position.mp hyz
  obtain rfl := Option.some.inj (hb.symm.trans hb')
  exact le_iff_position.mpr ⟨a, c, ha, hc, hab.trans hbc⟩

theorem lt_of_le_of_lt (hxy : x ≤ y) (hyz : y < z) : x < z := by
  obtain ⟨a, b, ha, hb, hab⟩ := le_iff_position.mp hxy
  obtain ⟨b', c, hb', hc, hbc⟩ := lt_iff_position.mp hyz
  obtain rfl := Option.some.inj (hb.symm.trans hb')
  exact lt_iff_position.mpr ⟨a, c, ha, hc, Int.lt_of_le_of_lt hab hbc⟩

theorem lt_of_lt_of_le (hxy : x < y) (hyz : y ≤ z) : x < z := by
  obtain ⟨a, b, ha, hb, hab⟩ := lt_iff_position.mp hxy
  obtain ⟨b', c, hb', hc, hbc⟩ := le_iff_position.mp hyz
  obtain rfl := Option.some.inj (hb.symm.trans hb')
  exact lt_iff_position.mpr ⟨a, c, ha, hc, Int.lt_of_lt_of_le hab hbc⟩

theorem lt_irrefl (x : Binary64) : ¬ x < x := by
  intro h
  obtain ⟨a, b, ha, hb, hab⟩ := lt_iff_position.mp h
  obtain rfl := Option.some.inj (ha.symm.trans hb)
  exact Int.lt_irrefl a hab

theorem lt_trans (hxy : x < y) (hyz : y < z) : x < z := by
  obtain ⟨a, b, ha, hb, hab⟩ := lt_iff_position.mp hxy
  obtain ⟨b', c, hb', hc, hbc⟩ := lt_iff_position.mp hyz
  obtain rfl := Option.some.inj (hb.symm.trans hb')
  exact lt_iff_position.mpr ⟨a, c, ha, hc, Int.lt_trans hab hbc⟩

/-- The doubles between two finite ones are finite. -/
theorem isFinite_of_le_of_le (hx : x.isFinite) (hz : z.isFinite) (hxy : x ≤ y) (hyz : y ≤ z) :
    y.isFinite := by
  have hlow := natAbs_units_lt hx
  have hhigh := natAbs_units_lt hz
  obtain ⟨a, b, ha, hb, hab⟩ := le_iff_position.mp hxy
  obtain ⟨b', c, hb', hc, hbc⟩ := le_iff_position.mp hyz
  rw [position_of_isFinite hx] at ha
  rw [position_of_isFinite hz] at hc
  obtain rfl := Option.some.inj ha
  obtain rfl := Option.some.inj hc
  obtain rfl := Option.some.inj (hb.symm.trans hb')
  exact (isFinite_of_position hb (by omega)).1

theorem le_refl (hx : x.isFinite) : x ≤ x :=
  le_iff_position.mpr ⟨_, _, position_of_isFinite hx, position_of_isFinite hx, Int.le_refl _⟩

section Values

variable (hx : x.isFinite) (hy : y.isFinite)
include hx hy

theorem le_iff_units : x ≤ y ↔ x.units ≤ y.units := by
  rw [le_iff_position, position_of_isFinite hx, position_of_isFinite hy]
  simp

theorem lt_iff_units : x < y ↔ x.units < y.units := by
  rw [lt_iff_position, position_of_isFinite hx, position_of_isFinite hy]
  simp

theorem le_iff_toRat : x ≤ y ↔ x.toRat ≤ y.toRat := by
  have hunits : (0 : Rat) < unitsPerOne := by exact_mod_cast unitsPerOne_pos
  rw [le_iff_units hx hy, toRat, toRat, Rat.mkRat_eq_div, Rat.mkRat_eq_div,
    div_le_div_iff_of_pos_right hunits]
  exact_mod_cast Iff.rfl

theorem lt_iff_toRat : x < y ↔ x.toRat < y.toRat := by
  have hunits : (0 : Rat) < unitsPerOne := by exact_mod_cast unitsPerOne_pos
  rw [lt_iff_units hx hy, toRat, toRat, Rat.mkRat_eq_div, Rat.mkRat_eq_div,
    div_lt_div_iff_of_pos_right hunits]
  exact_mod_cast Iff.rfl

theorem not_lt_iff_le : ¬ x < y ↔ y ≤ x := by
  rw [lt_iff_units hx hy, le_iff_units hy hx]
  exact Int.not_lt

theorem toRat_eq_of_le (h : x ≤ y) (h' : y ≤ x) : x.toRat = y.toRat := by
  rw [le_iff_toRat hx hy] at h
  rw [le_iff_toRat hy hx] at h'
  exact le_antisymm h h'

end Values

/-! ## Rounding -/

/-- Where a rational is rounded to. What is at the limit or beyond is rounded to infinity. -/
def roundedPosition (q : Rat) : Int :=
  q.num.sign * min (roundedUnits (q.num.natAbs * unitsPerOne) q.den) limit

theorem roundedUnits_zero (den : Nat) : roundedUnits 0 den = 0 := by
  rw [roundedUnits, roundHalfEven]
  simp

theorem position_nearest (s : Bool) (q : Rat) :
    (nearest s q).position = some (roundedPosition q) := by
  rw [roundedPosition, nearest]
  rcases @Magnitude.nearest?_cases (q.num.natAbs * unitsPerOne) _ q.den_pos with
    ⟨m, hm, hunits⟩ | ⟨hnone, hlimit⟩
  · rw [hm, Option.elim_some, ← hunits, min_eq_left m.units_lt.le]
    rcases Int.lt_trichotomy q.num 0 with hneg | hzero | hpos
    · rw [if_neg hneg.ne, decide_eq_true hneg, Int.sign_eq_neg_one_of_neg hneg, Int.neg_one_mul]
      rfl
    · rw [hzero, Int.natAbs_zero, Nat.zero_mul, roundedUnits_zero] at hunits
      rw [hzero, Int.sign_zero, Int.zero_mul]
      cases s <;> simp [position, units, hunits]
    · rw [if_neg hpos.ne', decide_eq_false hpos.not_gt, Int.sign_eq_one_of_pos hpos, Int.one_mul]
      rfl
  · rw [hnone, Option.elim_none, min_eq_right hlimit, position_infinite]
    rcases Int.lt_trichotomy q.num 0 with hneg | hzero | hpos
    · rw [if_neg hneg.ne, decide_eq_true hneg, Int.sign_eq_neg_one_of_neg hneg, Int.neg_one_mul,
        if_pos rfl]
    · rw [hzero, Int.natAbs_zero, Nat.zero_mul, roundedUnits_zero] at hlimit
      exact absurd Magnitude.zero.units_lt (Nat.not_lt.mpr (hlimit.trans (Nat.zero_le _)))
    · rw [if_neg hpos.ne', decide_eq_false hpos.not_gt, Int.sign_eq_one_of_pos hpos, Int.one_mul,
        if_neg Bool.false_ne_true]

/-- A larger rational is not rounded to a smaller double. -/
theorem roundedPosition_mono {q r : Rat} (h : q ≤ r) : roundedPosition q ≤ roundedPosition r := by
  have hcross : q.num * r.den ≤ r.num * q.den := (Rat.le_iff q r).mp h
  have hmono : ∀ {q r : Rat}, q.num.natAbs * r.den ≤ r.num.natAbs * q.den →
      min (roundedUnits (q.num.natAbs * unitsPerOne) q.den) limit ≤
        min (roundedUnits (r.num.natAbs * unitsPerOne) r.den) limit := by
    intro q r hle
    refine min_le_min_right limit (Magnitude.roundedUnits_mono q.den_pos r.den_pos ?_)
    rw [Nat.mul_right_comm, Nat.mul_right_comm r.num.natAbs]
    exact Nat.mul_le_mul_right unitsPerOne hle
  rw [roundedPosition, roundedPosition]
  rcases lt_or_ge q.num 0 with hq | hq
  · rw [Int.sign_eq_neg_one_of_neg hq]
    rcases lt_or_ge r.num 0 with hr | hr
    · rw [Int.sign_eq_neg_one_of_neg hr]
      have hle : r.num.natAbs * q.den ≤ q.num.natAbs * r.den := by
        zify
        rw [abs_of_neg hq, abs_of_neg hr]
        linarith
      have hmin := hmono hle
      omega
    · have hsign : 0 ≤ r.num.sign := Int.sign_nonneg_iff.mpr hr
      have hright := mul_nonneg hsign (Int.natCast_nonneg
        (min (roundedUnits (r.num.natAbs * unitsPerOne) r.den) limit))
      omega
  · have hr : 0 ≤ r.num := Rat.num_nonneg.mpr ((Rat.num_nonneg.mp hq).trans h)
    rcases hq.eq_or_lt with hzero | hpos
    · rw [← hzero, Int.sign_zero, Int.zero_mul]
      exact mul_nonneg (Int.sign_nonneg_iff.mpr hr) (Int.natCast_nonneg _)
    · have hr' : 0 < r.num := Rat.num_pos.mpr ((Rat.num_pos.mp hpos).trans_le h)
      rw [Int.sign_eq_one_of_pos hpos, Int.sign_eq_one_of_pos hr']
      have hle : q.num.natAbs * r.den ≤ r.num.natAbs * q.den := by
        zify
        rw [abs_of_nonneg hq, abs_of_nonneg hr]
        exact hcross
      have hmin := hmono hle
      omega

theorem nearest_mono {q r : Rat} (s t : Bool) (h : q ≤ r) : nearest s q ≤ nearest t r :=
  le_iff_position.mpr ⟨_, _, position_nearest s q, position_nearest t r, roundedPosition_mono h⟩

theorem toRat_finite (s : Bool) (m : Magnitude) :
    (finite s m).toRat = if s then -m.toRat else m.toRat := by
  cases s
  · rfl
  · exact Rat.neg_mkRat _ _ |>.symm

theorem toRat_zero (s : Bool) : (finite s .zero).toRat = 0 := by
  rw [toRat_finite, Magnitude.toRat]
  cases s <;> simp [Magnitude.zero, Magnitude.units]

/-- Each finite double is rounded to itself, up to the sign of zero. -/
theorem roundedPosition_toRat (hx : x.isFinite) : roundedPosition x.toRat = x.units := by
  cases x with
  | nan => cases hx
  | infinite s => cases hx
  | finite s m =>
      by_cases hm : m.significand = 0
      · obtain rfl := Magnitude.eq_zero_of_significand hm
        rw [toRat_zero, roundedPosition]
        cases s <;> simp [units, Magnitude.units, Magnitude.zero]
      · have hnearest := nearest_of_readsBack hm (Magnitude.readsBack_toRat hm) false s
        rw [← toRat_finite] at hnearest
        have hposition := position_nearest false (finite s m).toRat
        rw [hnearest] at hposition
        exact (Option.some.inj hposition).symm

/-- What is at most a double is rounded to at most this double. -/
theorem nearest_le (s : Bool) {q : Rat} (hx : x.isFinite) (h : q ≤ x.toRat) : nearest s q ≤ x := by
  refine le_iff_position.mpr ⟨_, _, position_nearest s q, position_of_isFinite hx, ?_⟩
  exact roundedPosition_toRat hx ▸ roundedPosition_mono h

/-- What is at least a double is rounded to at least this double. -/
theorem le_nearest (s : Bool) {q : Rat} (hx : x.isFinite) (h : x.toRat ≤ q) : x ≤ nearest s q := by
  refine le_iff_position.mpr ⟨_, _, position_of_isFinite hx, position_nearest s q, ?_⟩
  exact roundedPosition_toRat hx ▸ roundedPosition_mono h

/-- What lies between two finite doubles is rounded to a finite one. -/
theorem isFinite_nearest (s : Bool) {q : Rat} (hx : x.isFinite) (hy : y.isFinite)
    (hlow : x.toRat ≤ q) (hhigh : q ≤ y.toRat) : (nearest s q).isFinite :=
  isFinite_of_le_of_le hx hy (le_nearest s hx hlow) (nearest_le s hy hhigh)

end Binary64

end TimingChart
