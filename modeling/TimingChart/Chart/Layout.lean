import TimingChart.Chart.Drawing
import TimingChart.Chart.Ticks
import TimingChart.Decimal.Format

/-!
# Layout

A chart has its caption on top, the vertical axis with its title on the left, the horizontal one at
the bottom, and the plotting area between them, with a mesh behind the lines and a legend at the
right edge. Everything is placed on whole pixels.
-/

namespace TimingChart

/-! ## From values to pixels -/

/-- Pixels from `first` to `last`, in either direction. -/
structure PixelSpan where
  first : Int
  last : Int
deriving DecidableEq, Repr

/-- What is added before the fraction of a pixel is dropped, so that values that are just short of
a whole pixel still reach it. -/
def pixelTolerance : Binary64 := .nearest false (mkRat 1 1000)

/-- The pixel of a value, when a range is spread over a span of pixels. -/
def Range.toPixel (range : Range) (span : PixelSpan) (value : Binary64) : Int :=
  let length := span.last - span.first
  if range.low.equals range.high then length.tdiv 2
  else
    let fraction := (value - range.low) / range.span
    if length = 0 then span.last
    else
      match fraction with
      | .infinite negative => if negative then span.first else span.last
      | fraction =>
        if 0 < length then
          span.first + (Binary64.ofInt length * fraction + pixelTolerance).floor.toInt32
        else span.first + (Binary64.ofInt length * fraction - pixelTolerance).ceil.toInt32

/-- A rectangle of pixels, bounds included. -/
structure Area where
  left : Int
  top : Int
  right : Int
  bottom : Int
deriving DecidableEq, Repr

/-- The nearest pixel inside. -/
def Area.clamp (a : Area) (p : Pixel) : Pixel :=
  ⟨max a.left (min a.right p.x), max a.top (min a.bottom p.y)⟩

/-- The place counted from the upper left corner, clamped. -/
def Area.place (a : Area) (p : Pixel) : Pixel := a.clamp ⟨a.left + p.x, a.top + p.y⟩

/-! ## The parts of a chart -/

/-- A chart of a given size, with a range and ticks on both axes. -/
structure Frame where
  width : Int
  height : Int
  xRange : Range
  yRange : Range
  xTicks : List Binary64
  yTicks : List Binary64
deriving DecidableEq

namespace Frame

/-- The plotting area. -/
def plot (f : Frame) : Area := ⟨120, 55, f.width - 20, f.height - 80⟩

/-- The strips next to the plotting area that hold the labels of the axes. -/
def yStrip (f : Frame) : Area := ⟨20, f.plot.top, 120, f.plot.bottom⟩
def xStrip (f : Frame) : Area := ⟨f.plot.left, f.plot.bottom, f.plot.right, f.height - 20⟩

def xPixels (f : Frame) : PixelSpan := ⟨f.plot.left, f.plot.right - 1⟩

/-- Larger values stand further up. -/
def yPixels (f : Frame) : PixelSpan := ⟨f.plot.bottom - 1, f.plot.top⟩

/-- The column of a value on the horizontal axis, and the row of one on the vertical axis. -/
def column (f : Frame) (x : Binary64) : Int := f.xRange.toPixel f.xPixels x
def row (f : Frame) (y : Binary64) : Int := f.yRange.toPixel f.yPixels y

/-- Where a point of the data is drawn. -/
def pixel (f : Frame) (p : DataPoint) : Pixel := f.plot.clamp ⟨f.column p.x, f.row p.y⟩

def background (f : Frame) : Shape := .box .background ⟨0, 0⟩ f.width f.height

/-- What is written beside the vertical axis. -/
def yTitleText : String := "Execution time in ms"

/-- The caption and the titles of both axes. -/
def titles (f : Frame) (caption axisTitle : String) : List Shape :=
  [.text .caption ⟨20 + (f.width - 40).tdiv 2, 25⟩ caption,
    .text .yTitle ⟨20, f.plot.top + (f.plot.bottom - f.plot.top).tdiv 2⟩ yTitleText,
    .text .xTitle ⟨f.plot.left + (f.plot.right - f.plot.left).tdiv 2, f.height - 20⟩ axisTitle]

/-- A line across the plotting area at every tick. -/
def mesh (f : Frame) : List Shape :=
  (f.xTicks.map fun tick =>
    .meshLine ⟨f.column tick, f.plot.bottom - 1⟩ ⟨f.column tick, f.plot.top⟩) ++
  f.yTicks.map fun tick =>
    .meshLine ⟨f.plot.left, f.row tick⟩ ⟨f.plot.right - 1, f.row tick⟩

/-- The vertical axis, with a label and a mark at each tick inside. -/
def yAxis (f : Frame) : List Shape :=
  let spot (x y : Int) := f.yStrip.clamp ⟨x, y⟩
  .curve .axis .black [spot 119 f.plot.top, spot 119 (f.plot.bottom - 1)] ::
  f.yTicks.flatMap fun tick =>
    let y := f.row tick
    if f.plot.top ≤ y ∧ y ≤ f.plot.bottom - 1 then
      [.text .yLabel (spot 116 y) (String.ofList (Binary64.padLeft 5 tick.shortText)),
        .curve .axis .black [spot 117 y, spot 119 y]]
    else []

/-- The horizontal axis, with a label and a mark at each tick inside. -/
def xAxis (f : Frame) : List Shape :=
  let spot (x y : Int) := f.xStrip.clamp ⟨x, y⟩
  let y := f.plot.bottom
  .curve .axis .black [spot f.plot.left y, spot (f.plot.right - 1) y] ::
  f.xTicks.flatMap fun tick =>
    let x := f.column tick
    if f.plot.left ≤ x ∧ x ≤ f.plot.right - 1 then
      [.text .xLabel (spot x (y + 4)) (String.ofList tick.wholeText),
        .curve .axis .black [spot x y, spot x (y + 2)]]
    else []

/-- One curve for each run of each series. -/
def curves (f : Frame) (series : List Series) : List Shape :=
  series.flatMap fun s => s.runs.map fun run => .curve .data s.color (run.map f.pixel)

end Frame

/-! ## The legend -/

namespace Legend

/-- The size of a letter in a legend, by which the width of its text is estimated. -/
def letter : Binary64 := 20 / .nearest false (mkRat 124 100) / .nearest false (mkRat 124 100)

/-- The estimated width of a label: seven tenths of a letter for each byte. -/
def labelWidth (label : String) : Int :=
  (letter * .nearest false (mkRat 7 10) * .ofInt label.utf8ByteSize).round.toInt32

/-- Entries stand one below the other, at a distance of 25 pixels. -/
def offset (entry : Nat) : Int := 25 * entry

/-- The series that have anything to show. -/
def entries (series : List Series) : List Series := series.filter fun s => !s.runs.isEmpty

def width (entries : List Series) : Int :=
  (entries.map fun s => labelWidth s.label).foldl max 0 + 50

def height (entries : List Series) : Int :=
  (if entries.isEmpty then 0 else offset (entries.length - 1) + 16) + 20

/-- The shapes of the legend, if there are series at all: two boxes, the labels, and a mark in the
colour of each series. -/
def shapes (plot : Area) (series : List Series) : List Shape :=
  if series.isEmpty then []
  else
    let entries := entries series
    let left := plot.right - plot.left - width entries - 5
    let top := (plot.bottom - plot.top - height entries).tdiv 2
    let corner := plot.place ⟨left, top⟩
    let opposite := plot.place ⟨left + width entries, top + height entries⟩
    let labels := plot.place ⟨left + 40, top + 10⟩
    [.box .legendFill corner (opposite.x - corner.x) (opposite.y - corner.y),
      .box .legendBorder corner (opposite.x - corner.x) (opposite.y - corner.y)] ++
    (entries.zipIdx.map fun (s, entry) =>
      .text .legendLabel ⟨labels.x, labels.y + offset entry⟩ s.label) ++
    entries.zipIdx.map fun (s, entry) =>
      let y := (2 * (top + 10 + offset entry) + 16).tdiv 2
      .curve .legendMark s.color [plot.place ⟨left + 10, y⟩, plot.place ⟨left + 30, y⟩]

end Legend

/-! ## The chart -/

namespace ChartData

/-- The frame of a chart of this size, if the ticks of both axes end. Sizes are taken as signed. -/
def frame? (d : ChartData) (size : Size) : Option Frame := do
  return {
    width := size.width.toInt32.toInt
    height := size.height.toInt32.toInt
    xRange := d.xRange
    yRange := d.yRange
    xTicks := ← Ticks.ofRange d.xRange
    yTicks := ← Ticks.ofRange d.yRange }

/-- All shapes in a frame, from back to front. -/
def shapes (d : ChartData) (f : Frame) : List Shape :=
  f.background :: f.titles d.title d.axisTitle ++ f.mesh ++ f.yAxis ++ f.xAxis ++
    f.curves d.series ++ Legend.shapes f.plot d.series

/-- The chart in a given size. -/
def draw? (d : ChartData) (size : Size) : Option Drawing :=
  (d.frame? size).map fun frame => ⟨size, d.shapes frame⟩

end ChartData

end TimingChart
