import TimingChart.Bench.Mode
import TimingChart.Chart.Range

/-!
# Series

A chart shows series of points. Points with a coordinate that is not finite cannot be drawn and
leave a gap; the runs between the gaps are what is drawn.
-/

namespace TimingChart

/-- Red, green and blue. -/
structure Color where
  red : UInt8
  green : UInt8
  blue : UInt8
deriving DecidableEq, Repr

/-- A point of a chart in the units of its axes. -/
structure DataPoint where
  x : Binary64
  y : Binary64
deriving DecidableEq

/-- A point can be drawn if both coordinates are finite. -/
def DataPoint.isDrawable (p : DataPoint) : Bool := p.x.isFinite && p.y.isFinite

/-- One line of the chart. -/
structure Series where
  label : String
  color : Color
  points : List DataPoint
deriving DecidableEq

namespace Series

/-- Cuts a list of points at those that cannot be drawn; some of the parts may be empty. -/
def cut : List DataPoint → List (List DataPoint)
  | [] => [[]]
  | p :: rest =>
    if p.isDrawable then
      match cut rest with
      | [] => [[p]]
      | part :: parts => (p :: part) :: parts
    else [] :: cut rest

/-- The maximal runs of points that can be drawn. -/
def runs (s : Series) : List (List DataPoint) := (cut s.points).filter fun run => !run.isEmpty

end Series

/-- All that a chart shows: a title, what stands below the horizontal axis, and the series. -/
structure ChartData where
  title : String
  axisTitle : String
  series : List Series
deriving DecidableEq

namespace ChartData

/-- One series of timings against a size column. -/
def timings (label : String) (color : Color) (xs : Array Int64) (ys : Array Binary64) : Series :=
  ⟨label, color, (xs.toList.zip ys.toList).map fun (x, y) => ⟨.ofInt x.toInt, y⟩⟩

/-- The timings of a table against the column of a mode, or nothing without a mode. -/
def ofTable (t : Table) (mode : Option Mode) (title : String) : ChartData :=
  match mode with
  | none => ⟨title, "", []⟩
  | some mode =>
    let xs := mode.column t
    ⟨title, mode.axisTitle,
      [timings "Scalar Mult" ⟨255, 0, 0⟩ xs t.timeScalar,
        timings "SIMD Mult" ⟨0, 0, 255⟩ xs t.timeSimd,
        timings "MKL Mult" ⟨0, 255, 0⟩ xs t.timeMkl]⟩

/-- The points of all series that can be drawn. -/
def drawable (d : ChartData) : List DataPoint :=
  (d.series.flatMap Series.points).filter DataPoint.isDrawable

def xRange (d : ChartData) : Range := .ofValues (d.drawable.map DataPoint.x)

def yRange (d : ChartData) : Range := .ofValues (d.drawable.map DataPoint.y)

end ChartData

end TimingChart
