import TimingChart.Binary64.Basic
import TimingChart.Decimal.Basic

/-!
# Shortest decimals

The rationals that round to a given double form an interval around it. A decimal with the fewest
digits among those in the interval lies on the coarsest decimal grid that meets the interval, and
such a grid meets it in a neighbour of the double. So it is enough to try both neighbours on one
grid after the other, from coarse to fine.
-/

namespace TimingChart

/-! ## The interval that rounds to a magnitude -/

namespace Magnitude

/-- The exact value. -/
def toRat (m : Magnitude) : Rat := mkRat m.units unitsPerOne

/-- The neighbour below a power of two is only half as far away as the neighbour above. -/
def narrowBelow (m : Magnitude) : Bool :=
  decide (m.significand = 0x10000000000000 ∧ 0 < m.exponent)

/-- Half way to the neighbour below. -/
def roundsFrom (m : Magnitude) : Rat :=
  mkRat ((4 * m.significand - if m.narrowBelow then 1 else 2) * 2 ^ m.exponent : Nat)
    (4 * unitsPerOne)

/-- Half way to the neighbour above. -/
def roundsUpTo (m : Magnitude) : Rat :=
  mkRat ((4 * m.significand + 2) * 2 ^ m.exponent : Nat) (4 * unitsPerOne)

/-- Whether a rational rounds to this magnitude. Ties go to even significands, so these own both
ends of their interval, and odd ones own neither. -/
def readsBack (m : Magnitude) (q : Rat) : Bool :=
  if m.significand % 2 = 0 then decide (m.roundsFrom ≤ q ∧ q ≤ m.roundsUpTo)
  else decide (m.roundsFrom < q ∧ q < m.roundsUpTo)

end Magnitude

/-! ## The search -/

namespace Decimal

/-- The least exponent whose power of ten is above a positive quotient. -/
def exponentAbove (num den : Nat) : Int :=
  if den ≤ num then (Nat.toDigits 10 (num / den)).length
  else -((Nat.toDigits 10 ((den - 1) / num)).length - 1 : Nat)

/-- The nearer of the two neighbours of a magnitude on the grid `10 ^ exponent` if both read back,
the upper one if they are equally near; otherwise the one that reads back, if any does. -/
def neighbour? (m : Magnitude) (exponent : Int) : Option Decimal :=
  let value := m.toRat
  let lower : Decimal := ⟨(value / step exponent).floor.toNat, exponent⟩
  let upper : Decimal := ⟨lower.digits + 1, exponent⟩
  match m.readsBack lower.toRat, m.readsBack upper.toRat with
  | true, true =>
    some (if value - lower.toRat < upper.toRat - value then lower else upper)
  | true, false => some lower
  | false, true => some upper
  | false, false => none

/-- Tries one grid after the other, each ten times as fine as the one before. -/
def firstNeighbour? (m : Magnitude) : (grids : Nat) → (exponent : Int) → Option Decimal
  | 0, _ => none
  | grids + 1, exponent =>
    (neighbour? m exponent).or (firstNeighbour? m grids (exponent - 1))

/-- The exact value of a magnitude, as `2 ^ -1074` is `5 ^ 1074 * 10 ^ -1074`. -/
def exact (m : Magnitude) : Decimal := ⟨m.units * 5 ^ (1074 : Nat), -1074⟩

/-- The shortest decimal that reads back as this magnitude, and the nearest to it among those. -/
def shortest (m : Magnitude) : Decimal :=
  if m.significand = 0 then ⟨0, 0⟩
  else
    (firstNeighbour? m 18 (exponentAbove m.units Magnitude.unitsPerOne)).getD (exact m)

end Decimal

end TimingChart
