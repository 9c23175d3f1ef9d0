import Mathlib.Data.List.DropRight
import TimingChart.Proofs.Decimal.Grids

/-! # Shortest texts

What is written for a double has no more significant digits than any other decimal that is rounded
to the double: a shorter one would lie on a coarser grid, where the search would have ended. -/

namespace TimingChart

/-! ## Significant digits -/

/-- The number of digits up to the last one that is not zero. -/
def significantDigits (n : Nat) : Nat := ((Nat.toDigits 10 n).rdropWhile (· = '0')).length

section SignificantDigits

variable {n k a : Nat}

theorem significantDigits_mul_ten (n : Nat) : significantDigits (n * 10) = significantDigits n := by
  rcases Nat.eq_zero_or_pos n with rfl | hpos
  · rfl
  · have hlast : Nat.toDigits 10 (n * 10) = Nat.toDigits 10 n ++ ['0'] := by
      rw [Nat.toDigits_of_base_le (by decide) (Nat.le_mul_of_pos_left 10 hpos),
        Nat.mul_div_cancel n (by decide), Nat.mul_mod_left]
      rfl
    rw [significantDigits, hlast, List.rdropWhile_concat_pos _ _ _ (by decide)]
    rfl

theorem significantDigits_mul_pow (n places : Nat) :
    significantDigits (n * 10 ^ places) = significantDigits n := by
  induction places with
  | zero => rw [Nat.pow_zero, Nat.mul_one]
  | succ places ih => rw [Nat.pow_succ, ← Nat.mul_assoc, significantDigits_mul_ten, ih]

theorem significantDigits_of_mod_ne (h : n % 10 ≠ 0) :
    significantDigits n = (Nat.toDigits 10 n).length := by
  have hlast : (n % 10).digitChar ≠ '0' := fun heq => h (Nat.digitChar_eq_zero.mp heq)
  have hsame : (Nat.toDigits 10 n).rdropWhile (· = '0') = Nat.toDigits 10 n := by
    rw [Nat.toDigits_eq_if (by decide)]
    split
    next hlt =>
      rw [Nat.mod_eq_of_lt hlt] at hlast
      exact List.rdropWhile_concat_neg _ [] _ (by simpa using hlast)
    next => exact List.rdropWhile_concat_neg _ _ _ (by simpa using hlast)
  rw [significantDigits, hsame]

theorem significantDigits_le_of_lt (ha : a < 10 ^ k) : significantDigits a ≤ k := by
  rcases Nat.eq_zero_or_pos k with rfl | hk
  · obtain rfl : a = 0 := Nat.lt_one_iff.mp ha
    exact Nat.le_refl 0
  · exact (List.rdropWhile_prefix _ _).length_le.trans
      ((Nat.length_toDigits_le_iff (by decide) hk).mpr ha)

/-- A number with so many significant digits at most is a smaller number with zeros behind it. -/
theorem significantDigits_le_iff :
    significantDigits n ≤ k ↔ ∃ a places, n = a * 10 ^ places ∧ a < 10 ^ k := by
  constructor
  · intro h
    induction n using Nat.strongRecOn with
    | ind n ih =>
        by_cases hlast : n % 10 = 0
        · rcases Nat.eq_zero_or_pos n with rfl | hpos
          · exact ⟨0, 0, rfl, Nat.pow_pos (by decide)⟩
          · obtain ⟨next, rfl⟩ : ∃ next, n = next * 10 := ⟨n / 10, by omega⟩
            rw [significantDigits_mul_ten] at h
            obtain ⟨a, places, rfl, ha⟩ := ih next (by omega) h
            exact ⟨a, places + 1, by rw [Nat.pow_succ, Nat.mul_assoc], ha⟩
        · rw [significantDigits_of_mod_ne hlast] at h
          have hk : 0 < k := Nat.lt_of_lt_of_le Nat.length_toDigits_pos h
          exact ⟨n, 0, (Nat.mul_one n).symm, (Nat.length_toDigits_le_iff (by decide) hk).mp h⟩
  · rintro ⟨a, places, rfl, ha⟩
    rw [significantDigits_mul_pow]
    exact significantDigits_le_of_lt ha

/-- A power of ten has one significant digit, and what is below it no more than it has zeros. -/
theorem significantDigits_le_of_le (hk : 0 < k) (hn : n ≤ 10 ^ k) : significantDigits n ≤ k := by
  rcases Nat.eq_or_lt_of_le hn with rfl | hlt
  · exact significantDigits_le_iff.mpr
      ⟨1, k, (Nat.one_mul _).symm, Nat.one_lt_pow hk.ne' (by decide)⟩
  · exact significantDigits_le_of_lt hlt

end SignificantDigits

/-! ## Decimals -/

namespace Decimal

variable {m : Magnitude} {d : Decimal}

/-- What reads back as a magnitude that is not zero has a digit that is not zero. -/
theorem significantDigits_pos (hm : m.significand ≠ 0) (h : m.readsBack d.toRat) :
    0 < significantDigits d.digits := by
  by_contra hzero
  obtain ⟨a, zeros, hdigits, ha⟩ := significantDigits_le_iff.mp (Nat.not_lt.mp hzero)
  obtain rfl : a = 0 := Nat.lt_one_iff.mp ha
  have hpos := (Magnitude.rounds_of_readsBack hm h).1
  rw [toRat, hdigits, Nat.zero_mul] at hpos
  simp at hpos

/-- The number of significant digits tells a grid that is met, unless seventeen are enough. -/
theorem exists_grid (hm : m.significand ≠ 0) {e : Int} (hlow : step (e - 1) ≤ m.toRat)
    (h : m.readsBack d.toRat) :
    ∃ i ≤ significantDigits d.digits, i < 18 ∧ ∃ n : Nat, m.readsBack (n * step (e - i)) := by
  have hpos := significantDigits_pos hm h
  obtain ⟨a, zeros, hdigits, ha⟩ :=
    significantDigits_le_iff.mp (Nat.le_refl (significantDigits d.digits))
  have hvalue : d.toRat = a * step (d.exponent + zeros) := by
    rw [toRat, hdigits, step_eq_mul (d.exponent + zeros) zeros, add_sub_cancel_right]
    push_cast
    ring
  rw [hvalue] at h
  rcases Nat.lt_or_ge (significantDigits d.digits) 18 with hfew | hmany
  · exact ⟨_, Nat.le_refl _, hfew, exists_multiple_of_digits hm hlow hpos ha h⟩
  · exact ⟨17, by omega, by decide, exists_multiple_seventeen hm hlow⟩

/-- No decimal with fewer significant digits reads back. -/
theorem significantDigits_shortest_le (hm : m.significand ≠ 0) (h : m.readsBack d.toRat) :
    significantDigits (shortest m).digits ≤ significantDigits d.digits := by
  obtain ⟨hlow, hhigh⟩ := exponentAbove_units hm
  rw [shortest, if_neg hm]
  generalize exponentAbove m.units Magnitude.unitsPerOne = e at *
  -- the search has ended on this grid or on a coarser one
  obtain ⟨i, hle, hi, n, hn⟩ := exists_grid hm hlow h
  obtain ⟨j, hj, d', hneighbour, hsearch⟩ := firstNeighbour?_of_exists hi (exists_neighbour? hm hn)
  rw [hsearch, Option.getD_some]
  apply significantDigits_le_of_le (significantDigits_pos hm h)
  calc d'.digits ≤ stepsBelow m (e - j) + 1 := neighbour?_digits_le hneighbour
    _ ≤ 10 ^ j := stepsBelow_lt hhigh j
    _ ≤ 10 ^ significantDigits d.digits := Nat.pow_le_pow_right (by decide) (hj.trans hle)

end Decimal

/-! ## Doubles -/

namespace Binary64

open Decimal (Mantissa)

/-- A finite double is written as digits with at most one point and a minus sign wherever its sign
bit is set. This decimal is rounded to the double and to no other one, so that it is read as the
double, and no decimal that is rounded to the double has fewer significant digits. -/
theorem shortText_shortest {x : Binary64} (hx : x.isFinite) :
    ∃ (body : List Char) (n places : Nat), x.shortText = signed x.negative body ∧
      Mantissa body n places ∧
      (∀ y, IsNearest x.negative (signedValue x.negative ⟨n, -places⟩) y ↔ y = x) ∧
      read x.shortText = .ok x ∧
      ∀ (negative : Bool) (d : Decimal), IsNearest negative (signedValue negative d) x →
        significantDigits n ≤ significantDigits d.digits := by
  cases x with
  | nan => cases hx
  | infinite s => cases hx
  | finite s m =>
      refine ⟨_, _, _, rfl, (Decimal.shortest m).mantissa_plain, ?_, read_shortText _, ?_⟩
      · intro y
        rw [isNearest_iff (hasSign_signedValue _ _), signedValue, Decimal.toRat_plain]
        exact iff_of_eq (congrArg (y = ·) (nearest_shortest s m))
      · intro negative d hnearest
        rw [significantDigits_mul_pow]
        by_cases hm : m.significand = 0
        · rw [Decimal.shortest, if_pos hm]
          exact Nat.zero_le _
        · have hreads := readsBack_of_isNearest hm (hasSign_signedValue negative d) hnearest
          rw [abs_signedValue] at hreads
          exact Decimal.significantDigits_shortest_le hm hreads

/-- The sum of a tenth and two tenths, each of them rounded. -/
def tenthsSum : Binary64 := nearest false (30000000000000004 / 10 ^ 17)

/-- This sum is not the double nearest to three tenths, and takes all of seventeen digits. -/
theorem shortText_shortest_tenthsSum :
    tenthsSum.shortText = "0.30000000000000004".toList ∧
      read "0.30000000000000004".toList = .ok tenthsSum ∧
      ∀ (negative : Bool) (d : Decimal), IsNearest negative (signedValue negative d) tenthsSum →
        17 ≤ significantDigits d.digits := by
  have htext : tenthsSum.shortText = "0.30000000000000004".toList := by decide +kernel
  have hpositive : tenthsSum.negative = false := by decide +kernel
  obtain ⟨body, n, places, hbody, hmantissa, -, hread, hleast⟩ :=
    shortText_shortest (by decide +kernel : tenthsSum.isFinite)
  rw [htext] at hread
  rw [htext, hpositive, signed, if_neg Bool.false_ne_true] at hbody
  have hdigits : n = 30000000000000004 := by
    have hdecimal : Decimal.read? "0.30000000000000004".toList = some ⟨30000000000000004, -17⟩ := by
      decide +kernel
    rw [hbody, hmantissa.read?_eq] at hdecimal
    exact (Decimal.mk.inj (Option.some.inj hdecimal)).1
  rw [hdigits, (by decide : significantDigits 30000000000000004 = 17)] at hleast
  exact ⟨htext, hread, hleast⟩

end Binary64

end TimingChart
