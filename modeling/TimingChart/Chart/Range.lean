import TimingChart.Binary64.Arith

/-!
# Ranges

An axis shows the values from the smallest to the largest one, with a margin on both sides.
-/

namespace TimingChart

/-! ## Extremes -/

section Extremes

variable {α : Type} [LT α] [DecidableLT α]

/-- Widens a pair of bounds just enough to take in one more value. -/
def widen (bounds : α × α) (value : α) : α × α :=
  (if value < bounds.1 then value else bounds.1, if bounds.2 < value then value else bounds.2)

/-- The smallest and the largest value, if there are values at all. What cannot be compared changes
neither, unless it comes first. -/
def minAndMax : List α → Option (α × α)
  | [] => none
  | value :: rest => some (rest.foldl widen (value, value))

end Extremes

/-! ## Ranges -/

/-- The part of an axis from `low` to `high`. -/
structure Range where
  low : Binary64
  high : Binary64
deriving DecidableEq

namespace Range

/-- What is shown where no values say otherwise. -/
def default : Range := ⟨0, 1⟩

/-- A range with a margin of a tenth of the span on both sides, or of one if all values are equal.
The margins are dropped if they do not fit among the doubles, and bounds without a finite span give
the default. -/
def padded : Option (Binary64 × Binary64) → Range
  | none => default
  | some (low, high) =>
    if !(high - low).isFinite then default
    else if low < high then
      let margin := (high - low) / 10
      let wide : Range := ⟨low - margin, high + margin⟩
      if wide.low.isFinite && wide.high.isFinite then wide else ⟨low, high⟩
    else ⟨low - 1, low + 1⟩

/-- The range that shows all values. -/
def ofValues (values : List Binary64) : Range := padded (minAndMax values)

/-- The length of the range. -/
def span (r : Range) : Binary64 := r.high - r.low

end Range

end TimingChart
