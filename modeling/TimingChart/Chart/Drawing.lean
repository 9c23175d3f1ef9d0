import TimingChart.Chart.Series

/-!
# Drawings

A drawing is a list of shapes on a grid of pixels, from back to front. Each shape has a role, which
decides how it looks.
-/

namespace TimingChart

/-- A place on the grid, counted from the left and from the top. -/
structure Pixel where
  x : Int
  y : Int
deriving DecidableEq, Repr

/-- Width and height in pixels. -/
structure Size where
  width : UInt32
  height : UInt32
deriving DecidableEq, Repr

def Color.white : Color := ⟨255, 255, 255⟩
def Color.black : Color := ⟨0, 0, 0⟩
def Color.grey : Color := ⟨150, 150, 150⟩

/-- What a box is for. -/
inductive BoxRole where
  | background
  | legendFill
  | legendBorder
deriving DecidableEq, Repr

/-- What a curve is for. -/
inductive CurveRole where
  | axis
  | data
  | legendMark
deriving DecidableEq, Repr

/-- What a text is for. -/
inductive TextRole where
  | caption
  | xTitle
  | yTitle
  | xLabel
  | yLabel
  | legendLabel
deriving DecidableEq, Repr

inductive Shape where
  | box (role : BoxRole) (corner : Pixel) (width height : Int)
  | meshLine (start stop : Pixel)
  | curve (role : CurveRole) (color : Color) (points : List Pixel)
  | text (role : TextRole) (position : Pixel) (content : String)
deriving DecidableEq, Repr

structure Drawing where
  size : Size
  shapes : List Shape
deriving DecidableEq, Repr

end TimingChart
