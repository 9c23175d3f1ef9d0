import TimingChart.Chart.Drawing

/-!
# Summaries

What a drawing shows, without positions: its texts by role, how many lines and boxes it has, and the
colour and length of each data line.
-/

namespace TimingChart

structure Summary where
  size : Size
  caption : List String
  xTitle : List String
  yTitle : List String
  xLabels : List String
  yLabels : List String
  meshLines : Nat
  boxes : Nat
  /-- colour and number of points of each data line -/
  lines : List (Color × Nat)
  legend : List String
  legendMarks : List Color
deriving DecidableEq, Repr

namespace Shape

/-- The text of a shape, if it is a text of this role. -/
def textOf? (role : TextRole) : Shape → Option String
  | text r _ content => if r = role then some content else none
  | _ => none

/-- Colour and number of points of a shape, if it is a curve of this role. -/
def curveOf? (role : CurveRole) : Shape → Option (Color × Nat)
  | curve r color points => if r = role then some (color, points.length) else none
  | _ => none

def isBox : Shape → Bool
  | box .. => true
  | _ => false

def isMeshLine : Shape → Bool
  | meshLine .. => true
  | _ => false

end Shape

namespace Drawing

/-- The texts of one role, from back to front. -/
def texts (d : Drawing) (role : TextRole) : List String := d.shapes.filterMap (Shape.textOf? role)

/-- The curves of one role, from back to front. -/
def curves (d : Drawing) (role : CurveRole) : List (Color × Nat) :=
  d.shapes.filterMap (Shape.curveOf? role)

def summary (d : Drawing) : Summary where
  size := d.size
  caption := d.texts .caption
  xTitle := d.texts .xTitle
  yTitle := d.texts .yTitle
  xLabels := d.texts .xLabel
  yLabels := d.texts .yLabel
  meshLines := d.shapes.countP Shape.isMeshLine
  boxes := d.shapes.countP Shape.isBox
  lines := d.curves .data
  legend := d.texts .legendLabel
  legendMarks := (d.curves .legendMark).map Prod.fst

end Drawing

end TimingChart
