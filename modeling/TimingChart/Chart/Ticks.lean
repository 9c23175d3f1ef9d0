import TimingChart.Binary64.Log
import TimingChart.Chart.Range

/-!
# Ticks

Ticks stand at the multiples of a step that lie in the range of an axis. The step starts at the
power of ten just below the span and is divided by two, five or ten as long as no more ticks than
wanted come out. All of this is computed in doubles, so on ranges at the edge of what doubles can
tell apart there are many ticks in one place, or they do not end, and then there are none.
-/

namespace TimingChart.Ticks

/-- The distance from one to the next double. -/
def epsilon : Binary64 := Binary64.nearest false (mkRat 1 0x10000000000000)

/-- The largest number of ticks that is aimed at. -/
def wanted : Nat := 11

/-- There are no more doubles than this, so that no list of growing ones is longer. -/
def doubles : Nat := UInt64.size

/-- What is left of a value after whole steps; nothing if that is a whole step but for an
`epsilon`. -/
def remainder (value step : Binary64) : Binary64 :=
  let steps := if (0 : Binary64) < step then (value / step).floor else (value / step).ceil
  let rest := value - steps * step
  if (rest - step).abs < epsilon then 0 else rest

/-- The first multiple of a step from `low` on. -/
def firstFrom (low step : Binary64) : Binary64 :=
  let below := low - remainder low step
  if below < low then below + step else below

/-- The last multiple of a step up to `high`. -/
def lastUpTo (high step : Binary64) : Binary64 := high - remainder high step

/-- Whether the step `step / divisor` gives no more ticks than wanted. -/
def fits (range : Range) (step divisor : Binary64) : Bool :=
  let finer := step / divisor
  let ticks := 1 + (lastUpTo range.high finer - firstFrom range.low finer) / step * divisor
  ticks.round.toCount ≤ wanted

/-- The distance between ticks, and the power of ten that tick positions are rounded to. -/
structure Scale where
  step : Binary64
  grain : Binary64
deriving DecidableEq

/-- The power of ten below the span, or the one above if even that gives too many ticks. -/
def coarse (range : Range) : Scale :=
  let step := Binary64.tenTo (range.span.ln / Binary64.ln 10).floor
  if wanted < (1 + (range.span / step).floor).toCount then ⟨step * 10, step / 10 * 10⟩
  else ⟨step, step / 10⟩

/-- Refines a scale by two, five and ten as long as the result fits. -/
def refine (range : Range) : (attempts : Nat) → Scale → Option Scale
  | 0, _ => none
  | attempts + 1, scale =>
    if !fits range scale.step 2 then some scale
    else if !fits range scale.step 5 then some { scale with step := scale.step / 2 }
    else if !fits range scale.step 10 then some { scale with step := scale.step / 5 }
    else refine range attempts ⟨scale.step / 10, scale.grain / 10⟩

/-- The ticks from `base + offset` on, one step apart, as long as they do not pass `last`, in
descending order and before those already found. They do not end if a step is too small to change
the offset. -/
def upTo (scale : Scale) (base last : Binary64) :
    (attempts : Nat) → (offset : Binary64) → (found : List Binary64) → Option (List Binary64)
  | 0, _, _ => none
  | attempts + 1, offset, found =>
    if -epsilon ≤ last - offset - base then
      let start :=
        if (offset / scale.grain).round * scale.grain < 0 then offset + scale.grain else offset
      let next := start + scale.step
      if next ≤ offset then none
      else upTo scale base last attempts next ((start + base) :: found)
    else some found

/-- The ticks of a range, in ascending order, if there is an end of them. -/
def ofRange (range : Range) : Option (List Binary64) :=
  if (range.low - range.high).abs < epsilon then some [range.low]
  else do
    let scale ← refine range 700 (coarse range)
    let first := firstFrom range.low scale.step
    let base := (first / scale.grain).floor * scale.grain
    let ticks ← upTo scale base (lastUpTo range.high scale.step) doubles (first - base) []
    return ticks.reverse

end TimingChart.Ticks
