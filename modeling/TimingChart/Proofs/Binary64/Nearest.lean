import TimingChart.Proofs.Binary64.Operations

/-! # Nearest doubles

A rational is rounded to a double that no other finite double is nearer to, and to an even one of
two that are equally near. From half a step above the largest double on, it is rounded to infinity.
There is only one such double, so that this is all there is to say about rounding. -/

namespace TimingChart

/-! ## Quotients of natural numbers -/

namespace Magnitude

/-- How far a number of units is from `num / den`, in parts of a unit. -/
def gap (num den units : Nat) : Nat := ((num : Int) - (units * den : Nat)).natAbs

/-- No multiple of the step is nearer than the rounded one, and it is even if another one is as
near. -/
theorem gap_roundHalfEven (num : Nat) {step : Nat} (hstep : 0 < step) (n : Nat) :
    gap num step (roundHalfEven num step) ≤ gap num step n ∧
      (n ≠ roundHalfEven num step → gap num step n = gap num step (roundHalfEven num step) →
        roundHalfEven num step % 2 = 0) := by
  obtain ⟨hlow, hhigh, hodd⟩ :=
    (roundHalfEven_eq_iff hstep).mp (rfl : roundHalfEven num step = _)
  generalize roundHalfEven num step = r at *
  rw [gap, gap]
  rcases Nat.lt_trichotomy n r with hlt | rfl | hgt
  · have hmul : (n + 1) * step ≤ r * step := Nat.mul_le_mul_right step hlt
    rw [Nat.add_one_mul] at hmul
    omega
  · exact ⟨Nat.le_refl _, fun hne => absurd rfl hne⟩
  · have hmul : (r + 1) * step ≤ n * step := Nat.mul_le_mul_right step hgt
    rw [Nat.add_one_mul] at hmul
    omega

section Quotient

variable {num den : Nat} {m : Magnitude}

theorem grid_le (hden : 0 < den) (h : gridExponent num den ≠ 0) :
    0x10000000000000 * (den * 2 ^ gridExponent num den) ≤ num := by
  have hlog : (num / den).log2 = 52 + gridExponent num den := by
    rw [gridExponent] at h ⊢
    omega
  have hne : num / den ≠ 0 := by
    intro hzero
    rw [hzero, Nat.log2_zero] at hlog
    omega
  have hself := Nat.log2_self_le hne
  rw [hlog, Nat.le_div_iff_mul_le hden, Nat.pow_add] at hself
  calc 0x10000000000000 * (den * 2 ^ gridExponent num den)
      = 2 ^ 52 * 2 ^ gridExponent num den * den := by ring
    _ ≤ num := hself

/-- The significand is even if the number of steps is. -/
theorem of_nearest? (hden : 0 < den) (h : nearest? num den = some m) :
    m.units = roundedUnits num den ∧
      (roundHalfEven num (den * 2 ^ gridExponent num den) % 2 = 0 → m.significand % 2 = 0) := by
  constructor
  · rcases @nearest?_cases num den hden with ⟨m', hm', hunits⟩ | ⟨hnone, -⟩
    · obtain rfl := Option.some.inj (h.symm.trans hm')
      exact hunits
    · rw [hnone] at h
      contradiction
  · intro heven
    rw [nearest?] at h
    split at h
    · split at h
      · rw [← Option.some.inj h]
        exact heven
      · contradiction
    · split at h
      · obtain rfl := Option.some.inj h
        exact Nat.mod_eq_zero_of_dvd ⟨0x8000000000000, rfl⟩
      · contradiction

/-- A magnitude lies on a grid, or below all that have this grid for their own. -/
theorem units_grid (n : Magnitude) (e : Nat) :
    (∃ k, n.units = k * 2 ^ e) ∨ 0 < e ∧ n.units < 0x10000000000000 * 2 ^ e := by
  rcases Nat.lt_or_ge n.exponent e with hlt | hge
  · refine .inr ⟨Nat.zero_lt_of_lt hlt, ?_⟩
    have hpow : 2 ^ (n.exponent + 1) ≤ 2 ^ e := Nat.pow_le_pow_right (by decide) hlt
    have hmul : n.significand * 2 ^ n.exponent < 0x20000000000000 * 2 ^ n.exponent :=
      Nat.mul_lt_mul_of_pos_right n.significand_lt (Nat.two_pow_pos _)
    rw [Nat.pow_succ] at hpow
    rw [units]
    omega
  · refine .inl ⟨n.significand * 2 ^ (n.exponent - e), ?_⟩
    rw [units, Nat.mul_assoc, ← Nat.pow_add, Nat.sub_add_cancel hge]

theorem gap_roundedUnits (hden : 0 < den) (n : Magnitude) :
    gap num den (roundedUnits num den) ≤ gap num den n.units ∧
      (n.units ≠ roundedUnits num den →
        gap num den n.units = gap num den (roundedUnits num den) →
        roundHalfEven num (den * 2 ^ gridExponent num den) % 2 = 0) := by
  have hstep : 0 < den * 2 ^ gridExponent num den := Nat.mul_pos hden (Nat.two_pow_pos _)
  -- on the grid, numbers of units are numbers of steps
  have hgap : ∀ k, gap num den (k * 2 ^ gridExponent num den) =
      gap num (den * 2 ^ gridExponent num den) k := by
    intro k
    rw [gap, gap, Nat.mul_assoc, Nat.mul_comm den]
  rw [roundedUnits, hgap]
  rcases n.units_grid (gridExponent num den) with ⟨k, hk⟩ | ⟨hpos, hbelow⟩
  · obtain ⟨hle, heven⟩ := gap_roundHalfEven num hstep k
    rw [hk, hgap]
    exact ⟨hle, fun hne => heven fun heq => hne (by rw [heq])⟩
  · -- then the least number of steps on this grid is nearer
    obtain ⟨hle, -⟩ := gap_roundHalfEven num hstep 0x10000000000000
    have hnum := grid_le hden hpos.ne'
    have hmul := Nat.mul_lt_mul_of_pos_right hbelow hden
    have hcomm : 0x10000000000000 * 2 ^ gridExponent num den * den =
        0x10000000000000 * (den * 2 ^ gridExponent num den) := by ring
    have hlt : gap num (den * 2 ^ gridExponent num den) 0x10000000000000 < gap num den n.units := by
      rw [gap, gap]
      omega
    exact ⟨hle.trans hlt.le, fun _ heq => absurd (heq ▸ hle.trans_lt hlt) (Nat.lt_irrefl _)⟩

/-- No magnitude is nearer to a quotient than the one that it is rounded to, and this one is even if
another one is as near. -/
theorem gap_of_nearest? (hden : 0 < den) (h : nearest? num den = some m) (n : Magnitude) :
    gap num den m.units ≤ gap num den n.units ∧
      (n.units ≠ m.units → gap num den n.units = gap num den m.units → m.significand % 2 = 0) := by
  obtain ⟨hunits, hparity⟩ := of_nearest? hden h
  obtain ⟨hle, heven⟩ := gap_roundedUnits hden n
  rw [hunits]
  exact ⟨hle, fun hne heq => hparity (heven hne heq)⟩

end Quotient

/-- Half a step above a magnitude of 53 ones, the next power of two is rounded to. -/
theorem roundedUnits_midpoint (e : Nat) :
    roundedUnits (0x3FFFFFFFFFFFFF * 2 ^ e) 1 = 0x20000000000000 * 2 ^ (e + 1) := by
  have hpos := Nat.two_pow_pos e
  have hdouble : 2 ^ (e + 1) = 2 ^ e * 2 := Nat.pow_succ ..
  have hgrid : gridExponent (0x3FFFFFFFFFFFFF * 2 ^ e) 1 = e + 1 :=
    gridExponent_eq Nat.one_pos (by omega) (by omega)
  have hround : roundHalfEven (0x3FFFFFFFFFFFFF * 2 ^ e) (1 * 2 ^ (e + 1)) = 0x20000000000000 := by
    rw [roundHalfEven_eq_iff (by omega)]
    omega
  rw [roundedUnits, hgrid, hround]

/-- Half a step above the largest magnitude, all magnitudes are left behind. -/
theorem limit_le_roundedUnits {num den e : Nat} (hden : 0 < den) (he : 2044 ≤ e)
    (h : 0x3FFFFFFFFFFFFF * 2 ^ e * den ≤ num) : limit ≤ roundedUnits num den := by
  have hmono : roundedUnits (0x3FFFFFFFFFFFFF * 2 ^ e) 1 ≤ roundedUnits num den :=
    roundedUnits_mono Nat.one_pos hden (by rwa [Nat.mul_one])
  rw [roundedUnits_midpoint] at hmono
  refine Nat.le_trans ?_ hmono
  rw [limit]
  exact two_pow_le_mul (a := 53) (b := 2045) (k := 2098) (Nat.le_refl _) (by omega) rfl

theorem units_lt_of_exponent_lt {m n : Magnitude} (h : m.exponent < n.exponent) :
    m.units < n.units := by
  have hnormal := n.normal.resolve_left (by omega)
  have hle : 0x10000000000000 * 2 ^ n.exponent ≤ n.units := Nat.mul_le_mul_right _ hnormal
  have hpow : 2 ^ (m.exponent + 1) ≤ 2 ^ n.exponent := Nat.pow_le_pow_right (by decide) h
  have hmul : m.significand * 2 ^ m.exponent < 0x20000000000000 * 2 ^ m.exponent :=
    Nat.mul_lt_mul_of_pos_right m.significand_lt (Nat.two_pow_pos _)
  rw [Nat.pow_succ] at hpow
  rw [units]
  omega

/-- Each magnitude occurs once. -/
theorem units_injective {m n : Magnitude} (h : m.units = n.units) : m = n := by
  have hexponent : m.exponent = n.exponent := by
    rcases Nat.lt_trichotomy m.exponent n.exponent with hlt | heq | hgt
    · exact absurd h (units_lt_of_exponent_lt hlt).ne
    · exact heq
    · exact absurd h (units_lt_of_exponent_lt hgt).ne'
  have hsignificand : m.significand = n.significand := by
    rw [units, units, hexponent] at h
    exact Nat.eq_of_mul_eq_mul_right (Nat.two_pow_pos _) h
  cases m
  cases n
  simp_all

/-- Between two even magnitudes there is an odd one. -/
theorem exists_between {m m' : Magnitude} (hlt : m.units < m'.units)
    (heven : m.significand % 2 = 0) (heven' : m'.significand % 2 = 0) :
    ∃ n : Magnitude, m.units < n.units ∧ n.units < m'.units := by
  have hpos := Nat.two_pow_pos m.exponent
  let n : Magnitude :=
    ⟨m.significand + 1, m.exponent, by have hlt := m.significand_lt; omega, m.exponent_le,
      m.normal.imp_right fun h => by omega⟩
  have hunits : n.units = m.units + 2 ^ m.exponent := Nat.add_one_mul ..
  refine ⟨n, by omega, Nat.lt_of_le_of_ne ?_ ?_⟩
  · rcases m'.units_grid m.exponent with ⟨k, hk⟩ | ⟨hexponent, hbelow⟩
    · rw [hk, units] at hlt
      have hk' : m.significand + 1 ≤ k := Nat.lt_of_mul_lt_mul_right hlt
      rw [hk]
      exact Nat.mul_le_mul_right _ hk'
    · have hnormal : 0x10000000000000 ≤ m.significand := m.normal.resolve_left (by omega)
      have hle : 0x10000000000000 * 2 ^ m.exponent ≤ m.units := Nat.mul_le_mul_right _ hnormal
      omega
  · intro heq
    have hsignificand : n.significand = m'.significand := congrArg significand (units_injective heq)
    have hodd : n.significand = m.significand + 1 := rfl
    omega

end Magnitude

namespace Binary64

open Magnitude (gap limit unitsPerOne unitsPerOne_pos roundedUnits)

/-- Half way to the neighbour above, where the units are whole numbers. -/
theorem roundsUpTo_eq {m : Magnitude} {k : Nat} (hexponent : m.exponent = k + 1 + 1074) :
    m.roundsUpTo = (2 * m.significand + 1) * 2 ^ k := by
  -- the number is hidden here, as `2 ^ 1074` is not to be evaluated
  obtain ⟨ones, hunits, hones⟩ : ∃ ones, unitsPerOne = 2 ^ ones ∧ 1074 = ones := ⟨_, rfl, rfl⟩
  have hne : (2 : Rat) ^ ones ≠ 0 := by positivity
  rw [Magnitude.roundsUpTo, Rat.mkRat_eq_div, hexponent, hunits, hones]
  push_cast
  rw [pow_add, pow_succ]
  field_simp
  ring

theorem roundsUpTo_largestMagnitude :
    largestMagnitude.roundsUpTo = (2 ^ 54 - 1) * 2 ^ 970 := by
  have hsignificand : (2 * largestMagnitude.significand + 1 : Rat) = 2 ^ 54 - 1 := by
    norm_num [largestMagnitude]
  rw [roundsUpTo_eq (rfl : largestMagnitude.exponent = 970 + 1 + 1074), hsignificand]

attribute [local irreducible] limit unitsPerOne

/-- The double with this sign bit that is nearest to a rational: no finite double is nearer, and
it is even if another one is as near. Half a step above the largest double and beyond, it is
infinite. -/
inductive IsNearest (negative : Bool) (q : Rat) : Binary64 → Prop where
  | finite (m : Magnitude) (hbelow : |q| < largestMagnitude.roundsUpTo)
      (hnear : ∀ y : Binary64, y.isFinite →
        |q - (Binary64.finite negative m).toRat| ≤ |q - y.toRat|)
      (heven : ∀ y : Binary64, y.isFinite → y.toRat ≠ (Binary64.finite negative m).toRat →
        |q - y.toRat| = |q - (Binary64.finite negative m).toRat| → m.significand % 2 = 0) :
      IsNearest negative q (.finite negative m)
  | infinite (hbeyond : largestMagnitude.roundsUpTo ≤ |q|) :
      IsNearest negative q (.infinite negative)

/-! ## Rounding gives the nearest double -/

theorem abs_sub_toRat {q : Rat} (hq : 0 ≤ q) (m : Magnitude) :
    |q - m.toRat| =
      gap (q.num.natAbs * unitsPerOne) q.den m.units / (q.den * unitsPerOne : Nat) := by
  have hden : (0 : Rat) < q.den := by exact_mod_cast q.den_pos
  have hunits : (0 : Rat) < unitsPerOne := by exact_mod_cast unitsPerOne_pos
  obtain ⟨n, hn⟩ := Int.eq_ofNat_of_zero_le (Rat.num_nonneg.mpr hq)
  have hq' : q = n / q.den := by
    conv_lhs => rw [← Rat.num_div_den q, hn]
    rfl
  have hsub : q - m.toRat = ((n * unitsPerOne : Nat) - (m.units * q.den : Nat) : Int) /
      (q.den * unitsPerOne : Nat) := by
    conv_lhs => rw [hq', m.toRat_eq_div]
    push_cast
    field_simp
  rw [hsub, abs_div, gap, hn, Int.natAbs_natCast, Nat.cast_natAbs, Nat.abs_cast]
  push_cast
  rfl

/-- The exponent is hidden here, as powers like `2 ^ 2044` are not to be evaluated. -/
theorem exists_largest_eq : ∃ e : Nat, 2044 ≤ e ∧ 2 ^ largestMagnitude.exponent = 2 * 2 ^ e := by
  have hsucc : ∀ e k : Nat, e = k + 1 → 2 ^ e = 2 * 2 ^ k := by
    rintro _ k rfl
    exact Nat.pow_succ'
  exact ⟨2044, Nat.le_refl _, hsucc _ 2044 rfl⟩

/-- Rounding is to infinity from half a step above the largest double on. -/
theorem nearest?_eq_none_iff {q : Rat} (hq : 0 ≤ q) :
    Magnitude.nearest? (q.num.natAbs * unitsPerOne) q.den = none ↔
      largestMagnitude.roundsUpTo ≤ q := by
  have hunits : 0 < 4 * unitsPerOne := Nat.mul_pos (by decide) unitsPerOne_pos
  constructor
  · intro hnone
    by_contra hbelow
    have hfinite : (nearest false q).isFinite := by
      rcases le_or_gt q largestMagnitude.toRat with hle | hgt
      · exact isFinite_nearest_of_abs_le false (by rw [abs_of_nonneg hq]; linarith)
      · have hself := Magnitude.readsBack_toRat (m := largestMagnitude) (by decide)
        have hfrom := not_le.mp ((Magnitude.readsBack_ends hself).2 rfl).1
        have hreads : largestMagnitude.readsBack q := by
          rw [Magnitude.readsBack, if_neg (by decide)]
          exact decide_eq_true ⟨hfrom.trans hgt, not_le.mp hbelow⟩
        have hnearest := nearest_of_readsBack (by decide) hreads false false
        rw [if_neg Bool.false_ne_true] at hnearest
        rw [hnearest]
        rfl
    rw [nearest, hnone] at hfinite
    contradiction
  · intro hbeyond
    have hlimit : limit ≤ roundedUnits (q.num.natAbs * unitsPerOne) q.den := by
      obtain ⟨e, he, hpow⟩ := exists_largest_eq
      rw [Magnitude.roundsUpTo, Magnitude.mkRat_le_iff _ hunits hq, hpow] at hbeyond
      refine Magnitude.limit_le_roundedUnits q.den_pos he ?_
      have hfour : 0x7FFFFFFFFFFFFE * (2 * 2 ^ e) * q.den =
          4 * (0x3FFFFFFFFFFFFF * 2 ^ e * q.den) := by ring
      have hstep : 4 * (0x3FFFFFFFFFFFFF * 2 ^ e * q.den) ≤
          4 * (q.num.natAbs * unitsPerOne) := by
        rw [← hfour, Nat.mul_left_comm 4]
        exact hbeyond
      exact Nat.le_of_mul_le_mul_left hstep (by decide)
    rcases @Magnitude.nearest?_cases (q.num.natAbs * unitsPerOne) _ q.den_pos with
      ⟨m, -, hm⟩ | ⟨hnone, -⟩
    · exact absurd m.units_lt (by rw [hm]; exact Nat.not_lt.mpr hlimit)
    · exact hnone

/-- A rational has this sign, or is zero. -/
def HasSign (negative : Bool) (q : Rat) : Prop := if negative then q ≤ 0 else 0 ≤ q

/-- On the same side of zero, distances are those of the absolute values. -/
theorem abs_sub_finite {s : Bool} {q : Rat} (hq : HasSign s q) (m : Magnitude) :
    |q - (finite s m).toRat| = |(|q|) - m.toRat| := by
  rw [toRat_finite]
  cases s with
  | false => rw [if_neg Bool.false_ne_true, abs_of_nonneg hq]
  | true =>
      rw [if_pos rfl, abs_of_nonpos hq, ← abs_neg, neg_sub', sub_neg_eq_add, ← sub_eq_add_neg]

theorem abs_parts (q : Rat) : (|q|).num.natAbs = q.num.natAbs ∧ (|q|).den = q.den := by
  rcases abs_choice q with h | h
  · rw [h]
    exact ⟨rfl, rfl⟩
  · rw [h, Rat.num_neg_eq_neg_num, Rat.den_neg_eq_den, Int.natAbs_neg]
    exact ⟨rfl, rfl⟩

/-- What is rounded keeps its sign. -/
theorem nearest_of_hasSign {s : Bool} {q : Rat} (hq : HasSign s q) :
    nearest s q = (Magnitude.nearest? ((|q|).num.natAbs * unitsPerOne) (|q|).den).elim
      (infinite s) (finite s) := by
  obtain ⟨hnum, hden⟩ := abs_parts q
  rw [hnum, hden, nearest]
  rcases Int.lt_trichotomy q.num 0 with hneg | hzero | hpos
  · rw [if_neg hneg.ne, decide_eq_true hneg]
    cases s with
    | true => rfl
    | false => exact absurd (Rat.num_nonneg.mpr hq) (by omega)
  · rw [if_pos hzero]
  · rw [if_neg hpos.ne', decide_eq_false hpos.not_gt]
    cases s with
    | false => rfl
    | true => exact absurd (Rat.num_nonpos.mpr hq) (by omega)

theorem abs_sub_toRat_le {q : Rat} (hq : 0 ≤ q) {m : Magnitude}
    (h : Magnitude.nearest? (q.num.natAbs * unitsPerOne) q.den = some m) (n : Magnitude) :
    |q - m.toRat| ≤ |q - n.toRat| ∧
      (n ≠ m → |q - n.toRat| = |q - m.toRat| → m.significand % 2 = 0) := by
  have hpos : (0 : Rat) < (q.den * unitsPerOne : Nat) := by
    exact_mod_cast Nat.mul_pos q.den_pos unitsPerOne_pos
  obtain ⟨hle, heven⟩ := Magnitude.gap_of_nearest? q.den_pos h n
  rw [abs_sub_toRat hq, abs_sub_toRat hq, div_le_div_iff_of_pos_right hpos, div_left_inj' hpos.ne']
  refine ⟨by exact_mod_cast hle, fun hne heq => ?_⟩
  exact heven (fun hunits => hne (Magnitude.units_injective hunits)) (by exact_mod_cast heq)

/-- Across zero, only a zero is as near as the number that is rounded to. -/
theorem toRat_finite_eq_of_neg {s : Bool} {q : Rat} {m : Magnitude}
    (h : Magnitude.nearest? ((|q|).num.natAbs * unitsPerOne) (|q|).den = some m) {y : Binary64}
    (hy : y.toRat = -(finite s m).toRat) (heq : |q - y.toRat| = |q - (finite s m).toRat|) :
    y.toRat = (finite s m).toRat := by
  rw [hy] at heq ⊢
  rcases abs_eq_abs.mp heq with hsame | hmirror
  · linarith
  · obtain rfl : q = 0 := by linarith
    have hle := (abs_sub_toRat_le (abs_nonneg 0) h .zero).1
    have hzero : (Magnitude.zero).toRat = 0 := toRat_zero false
    rw [hzero, abs_zero, sub_zero, abs_zero, zero_sub, abs_neg, ← abs_toRat_finite s m, abs_abs,
      abs_nonpos_iff] at hle
    rw [hle, neg_zero]

theorem isNearest_nearest {s : Bool} {q : Rat} (hq : HasSign s q) :
    IsNearest s q (nearest s q) := by
  rw [nearest_of_hasSign hq]
  cases h : Magnitude.nearest? ((|q|).num.natAbs * unitsPerOne) (|q|).den with
  | none => exact .infinite ((nearest?_eq_none_iff (abs_nonneg q)).mp h)
  | some m =>
      refine .finite m ?_ ?_ ?_
      · rw [← not_le, ← nearest?_eq_none_iff (abs_nonneg q), h]
        nofun
      · intro y hy
        obtain ⟨n, hn⟩ := exists_abs_toRat_eq hy
        rw [abs_sub_finite hq]
        exact (abs_sub_toRat_le (abs_nonneg q) h n).1.trans (hn ▸ abs_abs_sub_abs_le q y.toRat)
      · intro y hy hne heq
        obtain ⟨n, hn⟩ := exists_abs_toRat_eq hy
        obtain ⟨hle, heven⟩ := abs_sub_toRat_le (abs_nonneg q) h n
        have hdistance : |(|q|) - n.toRat| ≤ |(|q|) - m.toRat| := by
          rw [← abs_sub_finite hq m, ← heq, ← hn]
          exact abs_abs_sub_abs_le q y.toRat
        refine heven ?_ (le_antisymm hdistance hle)
        rintro rfl
        have hopposite := (abs_eq_abs.mp (hn.trans (abs_toRat_finite s n).symm)).resolve_left hne
        exact hne (toRat_finite_eq_of_neg h hopposite heq)

/-! ## There is one nearest double -/

theorem toRat_lt_toRat {m n : Magnitude} (h : m.units < n.units) : m.toRat < n.toRat :=
  Magnitude.mkRat_lt_mkRat h unitsPerOne_pos

/-- What is between two equally distant numbers is nearer. -/
theorem abs_sub_lt_of_between {q a b c : Rat} (h : |q - a| = |q - b|) (hac : a < c) (hcb : c < b) :
    |q - c| < |q - a| := by
  rcases abs_eq_abs.mp h with hsame | hmirror
  · linarith
  · rw [abs_of_pos (by linarith : 0 < q - a), abs_lt]
    constructor <;> linarith

theorem IsNearest.not_units_lt {s : Bool} {q : Rat} {m n : Magnitude}
    (hm : IsNearest s q (.finite s m)) (hn : IsNearest s q (.finite s n)) :
    ¬ m.units < n.units := by
  intro hlt
  rcases hm with ⟨_, -, hnear, heven⟩
  rcases hn with ⟨_, -, hnear', heven'⟩
  have hdistance : |q - (Binary64.finite s m).toRat| = |q - (Binary64.finite s n).toRat| :=
    le_antisymm (hnear _ rfl) (hnear' _ rfl)
  have hne : (Binary64.finite s n).toRat ≠ (Binary64.finite s m).toRat := by
    have hvalue := (toRat_lt_toRat hlt).ne'
    rw [toRat_finite, toRat_finite]
    cases s
    · exact hvalue
    · exact fun heq => hvalue (neg_injective heq)
  obtain ⟨k, hmk, hkn⟩ := Magnitude.exists_between hlt (heven _ rfl hne hdistance.symm)
    (heven' _ rfl hne.symm hdistance)
  have hle := hnear (.finite s k) rfl
  rw [toRat_finite, toRat_finite] at hle hdistance
  cases s with
  | false =>
      exact absurd hle (not_le.mpr
        (abs_sub_lt_of_between hdistance (toRat_lt_toRat hmk) (toRat_lt_toRat hkn)))
  | true =>
      have hlt' := abs_sub_lt_of_between hdistance.symm (neg_lt_neg (toRat_lt_toRat hkn))
        (neg_lt_neg (toRat_lt_toRat hmk))
      exact absurd (hlt'.trans_eq hdistance.symm) (not_lt.mpr hle)

theorem IsNearest.unique {s : Bool} {q : Rat} {x y : Binary64} (hx : IsNearest s q x)
    (hy : IsNearest s q y) : x = y := by
  cases hx with
  | finite m hbelow hnear heven =>
      have hm : IsNearest s q (.finite s m) := .finite m hbelow hnear heven
      cases hy with
      | infinite hbeyond => exact absurd hbelow (not_lt.mpr hbeyond)
      | finite n hbelow' hnear' heven' =>
          have hn : IsNearest s q (.finite s n) := .finite n hbelow' hnear' heven'
          rcases Nat.lt_trichotomy m.units n.units with hlt | heq | hgt
          · exact absurd hlt (hm.not_units_lt hn)
          · rw [Magnitude.units_injective heq]
          · exact absurd hgt (hn.not_units_lt hm)
  | infinite hbeyond =>
      cases hy with
      | infinite _ => rfl
      | finite n hbelow _ _ => exact absurd hbelow (not_lt.mpr hbeyond)

section IsNearest

variable {s : Bool} {q : Rat} {x : Binary64}

theorem IsNearest.negative_eq (h : IsNearest s q x) : x.negative = s := by
  cases h <;> rfl

theorem IsNearest.eq_infinite_iff (h : IsNearest s q x) :
    x = .infinite s ↔ (2 ^ 54 - 1) * 2 ^ 970 ≤ |q| := by
  rw [← roundsUpTo_largestMagnitude]
  cases h with
  | finite m hbelow _ _ => exact iff_of_false nofun (not_le.mpr hbelow)
  | infinite hbeyond => exact iff_of_true rfl hbeyond

theorem IsNearest.isFinite_iff (h : IsNearest s q x) :
    x.isFinite ↔ |q| < (2 ^ 54 - 1) * 2 ^ 970 := by
  rw [← roundsUpTo_largestMagnitude]
  cases h with
  | finite m hbelow _ _ => exact iff_of_true rfl hbelow
  | infinite hbeyond => exact iff_of_false nofun (not_lt.mpr hbeyond)

/-- To be nearest and to be the result of rounding is the same. -/
theorem isNearest_iff (hq : HasSign s q) : IsNearest s q x ↔ x = nearest s q := by
  constructor
  · intro h
    exact h.unique (isNearest_nearest hq)
  · intro h
    rw [h]
    exact isNearest_nearest hq

end IsNearest

end Binary64

end TimingChart
