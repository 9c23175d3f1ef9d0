import TimingChart.Proofs.Binary64.Nearest

/-! # The intervals of magnitudes

The rationals that are rounded to a magnitude are those of its interval and no others. The interval
is convex, and wide enough to meet each grid whose step is a small part of the magnitude. -/

namespace TimingChart

namespace Magnitude

-- Nothing here unfolds this large number.
attribute [local irreducible] unitsPerOne

variable {m : Magnitude} {q : Rat}

/-! ## What is rounded to a magnitude -/

section Quotient

variable {num den : Nat}

/-- The grid is that of the magnitude, or the one below it if all its bits are carried over. -/
theorem cases_of_nearest? (hden : 0 < den) (h : nearest? num den = some m) :
    (gridExponent num den = m.exponent ∧
      roundHalfEven num (den * 2 ^ m.exponent) = m.significand) ∨
    (gridExponent num den + 1 = m.exponent ∧ m.significand = 0x10000000000000 ∧
      roundHalfEven num (den * 2 ^ gridExponent num den) = 0x20000000000000) := by
  rw [nearest?] at h
  split at h
  next hlt =>
    split at h
    next hle =>
      obtain rfl := Option.some.inj h
      exact .inl ⟨rfl, rfl⟩
    next => cases h
  next hlt =>
    split at h
    next hle =>
      obtain rfl := Option.some.inj h
      exact .inr ⟨rfl, rfl, Nat.le_antisymm (significand_le hden) (Nat.not_lt.mp hlt)⟩
    next => cases h

theorem rounds_of_significand (hden : 0 < den) (hexponent : gridExponent num den = m.exponent)
    (hsignificand : roundHalfEven num (den * 2 ^ m.exponent) = m.significand) :
    m.Rounds num den := by
  have hstep : 0 < den * 2 ^ m.exponent := Nat.mul_pos hden (Nat.two_pow_pos _)
  obtain ⟨hlow, hhigh, hodd⟩ := (roundHalfEven_eq_iff hstep).mp hsignificand
  by_cases hnarrow : m.narrowBelow
  · -- nothing below a power of two has the same grid
    have hpower := of_decide_eq_true hnarrow
    have hgrid := grid_le hden (hexponent.trans_ne hpower.2.ne')
    rw [hexponent, ← hpower.1] at hgrid
    have hwidth : (if m.narrowBelow then 1 else 2) = 1 := if_pos hnarrow
    refine ⟨?_, by omega, ?_⟩
    · rw [hwidth]
      omega
    · rw [hpower.1]
      nofun
  · have hwidth : (if m.narrowBelow then 1 else 2) = 2 := if_neg hnarrow
    refine ⟨?_, by omega, ?_⟩
    · rw [hwidth]
      omega
    · rw [hwidth]
      omega

theorem rounds_of_carry (hden : 0 < den) (hexponent : gridExponent num den + 1 = m.exponent)
    (hm : m.significand = 0x10000000000000)
    (hcarry : roundHalfEven num (den * 2 ^ gridExponent num den) = 0x20000000000000) :
    m.Rounds num den := by
  have hstep : 0 < den * 2 ^ gridExponent num den := Nat.mul_pos hden (Nat.two_pow_pos _)
  obtain ⟨hlow, -, -⟩ := (roundHalfEven_eq_iff hstep).mp hcarry
  have hbelow : num < 0x20000000000000 * (den * 2 ^ gridExponent num den) := lt_grid hden
  have hnarrow : m.narrowBelow := decide_eq_true ⟨hm, by omega⟩
  have hdouble : den * 2 ^ m.exponent = 2 * (den * 2 ^ gridExponent num den) := by
    rw [← hexponent, Nat.pow_succ]
    ring
  have hwidth : (if m.narrowBelow then 1 else 2) = 1 := if_pos hnarrow
  refine ⟨?_, ?_, ?_⟩
  · rw [hwidth, hm, hdouble]
    omega
  · rw [hm, hdouble]
    omega
  · rw [hm]
    nofun

/-- What is rounded to a magnitude lies in its interval. -/
theorem rounds_of_nearest? (hden : 0 < den) (h : nearest? num den = some m) : m.Rounds num den := by
  rcases cases_of_nearest? hden h with ⟨hexponent, hsignificand⟩ | ⟨hexponent, hm, hcarry⟩
  · exact rounds_of_significand hden hexponent hsignificand
  · exact rounds_of_carry hden hexponent hm hcarry

end Quotient

/-- Off both ends of the interval, everything reads back. -/
theorem readsBack_of_interior (hlow : m.roundsFrom < q) (hhigh : q < m.roundsUpTo) :
    m.readsBack q := by
  rw [readsBack]
  split
  · exact decide_eq_true ⟨hlow.le, hhigh.le⟩
  · exact decide_eq_true ⟨hlow, hhigh⟩

/-- What lies between two rationals that read back does so, too. -/
theorem readsBack_of_between {p r : Rat} (hp : m.readsBack p) (hr : m.readsBack r) (hpq : p ≤ q)
    (hqr : q ≤ r) : m.readsBack q := by
  rw [readsBack] at hp hr ⊢
  split at hp
  · next heven =>
    rw [if_pos heven] at hr ⊢
    exact decide_eq_true
      ⟨(of_decide_eq_true hp).1.trans hpq, hqr.trans (of_decide_eq_true hr).2⟩
  · next hodd =>
    rw [if_neg hodd] at hr ⊢
    exact decide_eq_true
      ⟨(of_decide_eq_true hp).1.trans_le hpq, hqr.trans_lt (of_decide_eq_true hr).2⟩

theorem readsBack_of_rounds (hm : m.significand ≠ 0) (hq : 0 ≤ q)
    (h : m.Rounds (q.num.natAbs * unitsPerOne) q.den) : m.readsBack q := by
  obtain ⟨hlow, hhigh, hodd⟩ := h
  have hunits : 0 < 4 * unitsPerOne := Nat.mul_pos (by decide) unitsPerOne_pos
  have hlower := m.lowerSteps hm q.den
  have hupper := m.upperSteps q.den
  have hends : (m.roundsFrom ≤ q ∧ q ≤ m.roundsUpTo) ∧
      (m.significand % 2 = 1 → ¬ q ≤ m.roundsFrom ∧ ¬ m.roundsUpTo ≤ q) := by
    rw [roundsFrom, roundsUpTo, mkRat_le_iff _ hunits hq, le_mkRat_iff _ hunits hq,
      le_mkRat_iff _ hunits hq, mkRat_le_iff _ hunits hq, Nat.mul_left_comm]
    omega
  rw [readsBack]
  split
  · exact decide_eq_true hends.1
  · have hstrict := hends.2 (by omega)
    exact decide_eq_true ⟨not_le.mp hstrict.1, not_le.mp hstrict.2⟩

/-- To read back as a magnitude is to be rounded to it. -/
theorem readsBack_iff (hm : m.significand ≠ 0) (hq : 0 ≤ q) :
    m.readsBack q ↔ nearest? (q.num.natAbs * unitsPerOne) q.den = some m := by
  constructor
  · intro h
    exact (rounds_of_readsBack hm h).2.nearest? q.den_pos
  · intro h
    exact readsBack_of_rounds hm hq (rounds_of_nearest? q.den_pos h)

/-! ## Widths -/

/-- The ends of the interval in steps of the binary grid. -/
theorem exists_ends (m : Magnitude) (hm : m.significand ≠ 0) :
    ∃ u : Rat, 0 < u ∧ m.toRat = m.significand * u ∧
      m.roundsUpTo = (m.significand + 1 / 2) * u ∧
      m.roundsFrom = (m.significand - if m.narrowBelow then 1 / 4 else 1 / 2) * u := by
  have hone : (0 : Rat) < unitsPerOne := by exact_mod_cast unitsPerOne_pos
  refine ⟨2 ^ m.exponent / unitsPerOne, by positivity, ?_, ?_, ?_⟩
  · rw [m.toRat_eq_div, units]
    push_cast
    ring
  · rw [roundsUpTo, Rat.mkRat_eq_div]
    push_cast
    field_simp
    ring
  · have hle : (if m.narrowBelow then 1 else 2) ≤ 4 * m.significand := by
      split <;> omega
    rw [roundsFrom, Rat.mkRat_eq_div, Int.cast_natCast, Nat.cast_mul, Nat.cast_sub hle]
    split
    · push_cast
      field_simp
    · push_cast
      field_simp
      ring

/-- Seventeen digits tell the step of the binary grid. -/
theorem exists_readsBack_multiple (hm : m.significand ≠ 0) {w : Rat} (hw : 0 < w)
    (hsmall : w * 10 ^ 16 ≤ m.toRat) : ∃ n : Nat, m.readsBack (n * w) := by
  obtain ⟨u, hu, hvalue, hupTo, hfrom⟩ := m.exists_ends hm
  have hlt : (m.significand : Rat) < 0x20000000000000 := by exact_mod_cast m.significand_lt
  have hwide : w < m.roundsUpTo - m.roundsFrom := by
    rw [hvalue] at hsmall
    rw [hupTo, hfrom]
    split
    · next hnarrow =>
      rw [(of_decide_eq_true hnarrow).1] at hsmall ⊢
      norm_num at hsmall ⊢
      linarith
    · have hmul := mul_lt_mul_of_pos_right hlt hu
      linarith
  have hpos := (roundsFrom_pos hm).le
  refine ⟨⌊m.roundsFrom / w⌋₊ + 1, readsBack_of_interior ?_ ?_⟩
  · have hfloor := Nat.lt_floor_add_one (m.roundsFrom / w)
    rw [div_lt_iff₀ hw] at hfloor
    push_cast
    exact hfloor
  · have hfloor := Nat.floor_le (div_nonneg hpos hw.le)
    rw [le_div_iff₀ hw] at hfloor
    push_cast
    linarith

end Magnitude

namespace Binary64

/-- A rational is rounded to the doubles whose interval it lies in, on its side of zero. -/
theorem readsBack_of_isNearest {s t : Bool} {m : Magnitude} (hm : m.significand ≠ 0) {q : Rat}
    (hq : HasSign s q) (h : IsNearest s q (finite t m)) : m.readsBack |q| := by
  rw [isNearest_iff hq, nearest_of_hasSign hq] at h
  rw [Magnitude.readsBack_iff hm (abs_nonneg q)]
  cases hnearest : Magnitude.nearest? ((|q|).num.natAbs * Magnitude.unitsPerOne) (|q|).den with
  | none =>
      rw [hnearest] at h
      cases h
  | some n =>
      rw [hnearest] at h
      obtain ⟨-, rfl⟩ := Binary64.finite.inj h
      rfl

end Binary64

end TimingChart
