import TimingChart.Chart.Layout
import TimingChart.Chart.Markup

/-!
# SVG documents

Each shape of a drawing becomes one element. Its role decides colours, line widths and fonts.
-/

namespace TimingChart

/-! ## Attribute values -/

/-- Two hexadecimal digits in upper case. -/
def hexByte (b : UInt8) : List Char :=
  let digit (n : Nat) := (Nat.digitChar n).toUpper
  [digit (b.toNat / 16), digit (b.toNat % 16)]

def Color.text (c : Color) : String :=
  String.ofList ('#' :: hexByte c.red ++ hexByte c.green ++ hexByte c.blue)

def pixelText (n : Int) : String := String.ofList (integerText n)

def pointsText (points : List Pixel) : String :=
  String.join (points.map fun p => pixelText p.x ++ "," ++ pixelText p.y ++ " ")

/-- Font sizes are given as line heights, which are 1.24 times as large. -/
def fontSize (lineHeight : Binary64) : String :=
  String.ofList (lineHeight / .nearest false (mkRat 124 100)).shortText

/-! ## Roles -/

structure BoxStyle where
  opacity : String
  fill : String
  stroke : String

def BoxRole.style : BoxRole → BoxStyle
  | background => ⟨"1", Color.white.text, "none"⟩
  | legendFill => ⟨"0.8", Color.white.text, "none"⟩
  | legendBorder => ⟨"1", "none", Color.black.text⟩

/-- Axes are thin, data and the marks in the legend are thick. -/
def CurveRole.strokeWidth : CurveRole → String
  | axis => "1"
  | data | legendMark => "3"

structure TextStyle where
  /-- how far the text is moved down from its position -/
  shift : String
  /-- which part of the text stands at its position -/
  anchor : String
  size : String

def TextRole.style : TextRole → TextStyle
  | caption => ⟨"0.76em", "middle", fontSize 30⟩
  | xTitle => ⟨"-0.5ex", "middle", fontSize 24⟩
  | yTitle => ⟨"0.76em", "middle", fontSize 24⟩
  | xLabel => ⟨"0.76em", "middle", fontSize 24⟩
  | yLabel => ⟨"0.5ex", "end", fontSize 24⟩
  | legendLabel => ⟨"0.76em", "start", fontSize 20⟩

/-- Only the title of the vertical axis is turned. -/
def TextRole.turned (role : TextRole) : Bool := role = yTitle

/-! ## Shapes as elements -/

open Markup (Element)

def Shape.element : Shape → Element
  | box role corner width height =>
    ⟨"rect",
      [("x", pixelText corner.x), ("y", pixelText corner.y), ("width", pixelText width),
        ("height", pixelText height), ("opacity", role.style.opacity), ("fill", role.style.fill),
        ("stroke", role.style.stroke)],
      none⟩
  | meshLine start stop =>
    ⟨"line",
      [("opacity", "1"), ("stroke", Color.grey.text), ("stroke-width", "2"),
        ("x1", pixelText start.x), ("y1", pixelText start.y), ("x2", pixelText stop.x),
        ("y2", pixelText stop.y)],
      none⟩
  | curve role color points =>
    ⟨"polyline",
      [("fill", "none"), ("opacity", "1"), ("stroke", color.text),
        ("stroke-width", role.strokeWidth), ("points", pointsText points)],
      none⟩
  | text role position content =>
    ⟨"text",
      [("x", pixelText position.x), ("y", pixelText position.y), ("dy", role.style.shift),
        ("text-anchor", role.style.anchor), ("font-family", "sans-serif"),
        ("font-size", role.style.size), ("opacity", "1"),
        ("fill", Color.black.text)] ++
      (if role.turned then
        [("transform", "rotate(270, " ++ pixelText position.x ++ ", " ++ pixelText position.y ++
          ")")]
      else []),
      some content⟩

/-- The attributes of the outermost element. -/
def Size.attributes (size : Size) : List (String × String) :=
  let width := toString size.width.toNat
  let height := toString size.height.toNat
  [("width", width), ("height", height), ("viewBox", "0 0 " ++ width ++ " " ++ height),
    ("xmlns", "http://www.w3.org/2000/svg")]

/-- The document that shows a drawing. -/
def Drawing.svg (d : Drawing) : List Char :=
  '<' :: 's' :: 'v' :: 'g' :: Markup.attributesText d.size.attributes ++ ['>', '\n'] ++
    d.shapes.flatMap (fun shape => shape.element.text) ++ ['<', '/', 's', 'v', 'g', '>', '\n']

end TimingChart
