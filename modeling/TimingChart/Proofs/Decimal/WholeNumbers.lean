import TimingChart.Proofs.Binary64.Errors
import TimingChart.Proofs.Decimal.WholeText

/-! # Whole numbers as they are shown

The text of a double is the decimal of the whole number nearest to it, behind the sign of the
double. No digit of a large double is lost, and the numbers that are shown for two doubles are in
the order of the doubles. -/

namespace TimingChart

namespace Binary64

open Numeral (Signed)

-- Nothing here unfolds this large number.
attribute [local irreducible] Magnitude.unitsPerOne

variable {x y : Binary64}

/-- A decimal behind a sign stands for the integer with this sign. -/
theorem signed_toDigits (negative : Bool) (n : Nat) :
    Signed 10 (signed negative (Nat.toDigits 10 n)) (if negative then -n else n) := by
  have hdigits := Numeral.digits_toDigits (by decide : 1 < 10) n
  cases negative with
  | false => exact .intro .none hdigits
  | true => exact .intro .minus hdigits

/-- The number that is shown is the one that the double is rounded to. -/
theorem exists_roundsTo_wholeText (hx : x.isFinite) :
    ∃ n : Int, RoundsTo x.toRat n ∧
      x.wholeText = signed x.negative (Nat.toDigits 10 n.natAbs) ∧ Signed 10 x.wholeText n := by
  cases x with
  | nan => cases hx
  | infinite s => cases hx
  | finite s m =>
      refine ⟨_, roundsTo_finite s m, ?_, signed_toDigits s _⟩
      cases s with
      | false => rfl
      | true =>
          rw [if_pos rfl, Int.natAbs_neg]
          rfl

/-- From `2 ^ 52` on there is nothing to round. -/
theorem toRat_eq_of_roundsTo (hx : x.isFinite) (hlarge : 2 ^ 52 ≤ |x.toRat|) {n : Int}
    (h : RoundsTo x.toRat n) : x.toRat = n := by
  obtain ⟨k, hk⟩ := exists_eq_mul_two_pow (j := 0) hx hlarge
  rw [pow_zero, mul_one] at hk
  rw [hk] at h ⊢
  rw [h.unique (RoundsTo.intCast k)]

/-- The numbers that are shown are in the order of the doubles. -/
theorem le_of_signed_wholeText (hx : x.isFinite) (hy : y.isFinite) (hle : x ≤ y) {m n : Int}
    (hm : Signed 10 x.wholeText m) (hn : Signed 10 y.wholeText n) : m ≤ n := by
  obtain ⟨m', hrounds, -, htext⟩ := exists_roundsTo_wholeText hx
  obtain ⟨n', hrounds', -, htext'⟩ := exists_roundsTo_wholeText hy
  rw [hm.unique (by decide) htext, hn.unique (by decide) htext']
  exact hrounds.mono hrounds' ((le_iff_toRat hx hy).mp hle)

/-- A finite double is shown as the decimal of the whole number that is nearest to it, the even one
of two, with a minus sign in front exactly if its sign bit is set. This number is the double itself
if that is whole, as all large doubles are, and at most the number that is shown for a larger
double. -/
theorem wholeText_nearest (hx : x.isFinite) :
    ∃ n : Int, RoundsTo x.toRat n ∧
      x.wholeText = signed x.negative (Nat.toDigits 10 n.natAbs) ∧ Signed 10 x.wholeText n ∧
      (2 ^ 52 ≤ |x.toRat| ∨ (∃ k : Int, x.toRat = k) → x.toRat = n) ∧
      ∀ (y : Binary64) (m : Int), y.isFinite → x ≤ y → Signed 10 y.wholeText m → n ≤ m := by
  obtain ⟨n, hrounds, htext, hsigned⟩ := exists_roundsTo_wholeText hx
  refine ⟨n, hrounds, htext, hsigned, ?_, ?_⟩
  · rintro (hlarge | ⟨k, hk⟩)
    · exact toRat_eq_of_roundsTo hx hlarge hrounds
    · rw [hk] at hrounds ⊢
      rw [hrounds.unique (.intCast k)]
  · intro y m hy hle hm
    exact le_of_signed_wholeText hx hy hle hsigned hm

/-- Minus a half is rounded to zero and keeps its sign, and what is shown for two and a half is not
less. -/
theorem wholeText_nearest_halves :
    (nearest false (-1 / 2)).wholeText = ['-', '0'] ∧ RoundsTo (nearest false (-1 / 2)).toRat 0 ∧
      (nearest false (5 / 2)).wholeText = ['2'] ∧
      ∀ m, Signed 10 (nearest false (5 / 2)).wholeText m → 0 ≤ m := by
  have hminus : (nearest false (-1 / 2)).wholeText = ['-', '0'] := by decide +kernel
  obtain ⟨n, hrounds, -, hsigned, -, hmono⟩ :=
    wholeText_nearest (by decide +kernel : (nearest false (-1 / 2)).isFinite)
  have hzero : n = 0 := by
    rw [hminus] at hsigned
    exact hsigned.unique (by decide) (signed_toDigits true 0)
  subst hzero
  refine ⟨hminus, hrounds, by decide +kernel, ?_⟩
  intro m hm
  exact hmono _ m (by decide +kernel) (by decide +kernel) hm

end Binary64

end TimingChart
