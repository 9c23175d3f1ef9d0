import TimingChart.Chart.Svg
import TimingChart.Decimal.Reading

/-!
# Reading drawings back

A document written from a drawing has one tag on each line, and the content of texts on lines of its
own. That is enough to get the drawing back; a file that is no such document gives none.
-/

namespace TimingChart

namespace SvgReader

/-- The parts between the places where a separator stands. -/
def splitAt (separator : Char) : List Char → List (List Char)
  | [] => [[]]
  | c :: rest =>
    if c = separator then [] :: splitAt separator rest
    else
      match splitAt separator rest with
      | [] => [[c]]
      | part :: parts => (c :: part) :: parts

/-- A tag with its attributes. -/
structure Tag where
  name : List Char
  attributes : List (List Char × List Char)

/-- Names and values by turns; a name is what stands between the last blank and an equals sign. -/
def pairs : List (List Char) → List (List Char × List Char)
  | name :: value :: rest =>
    ((name.dropWhile (· ≠ ' ')).filter fun c => c ≠ ' ' && c ≠ '=', value) :: pairs rest
  | _ => []

/-- The tag on a line, if there is one. -/
def tag? : List Char → Option Tag
  | '<' :: line => some ⟨line.takeWhile (· ≠ ' '), pairs (splitAt '"' ('<' :: line))⟩
  | _ => none

def Tag.text? (t : Tag) (name : String) : Option String :=
  (t.attributes.lookup name.toList).bind fun value =>
    (Markup.unescape? value).map String.ofList

def natural? (digits : List Char) : Option Nat :=
  if digits ≠ [] ∧ digits.all Char.isDigit then some (Nat.ofDigitChars 10 digits 0) else none

/-- An integer of any size, with a minus sign if it is negative. -/
def integer? (text : List Char) : Option Int :=
  match text with
  | '-' :: digits => (natural? digits).map Int.negOfNat
  | digits => (natural? digits).map Int.ofNat

def Tag.integer? (t : Tag) (name : String) : Option Int :=
  (t.text? name).bind fun value => SvgReader.integer? value.toList

def Tag.pixel? (t : Tag) (x y : String) : Option Pixel :=
  return ⟨← t.integer? x, ← t.integer? y⟩

def hexByte? (digits : List Char) : Option UInt8 :=
  (Numeral.readInteger 16 0 255 digits).toOption.map fun n => UInt8.ofNat n.toNat

def color? (text : List Char) : Option Color :=
  match text with
  | ['#', r1, r2, g1, g2, b1, b2] =>
    return ⟨← hexByte? [r1, r2], ← hexByte? [g1, g2], ← hexByte? [b1, b2]⟩
  | _ => none

/-- Points end with a blank each, and a comma stands between their coordinates. -/
def points? (text : List Char) : Option (List Pixel) :=
  (splitAt ' ' text).dropLast.mapM fun point =>
    match splitAt ',' point with
    | [x, y] => return ⟨← integer? x, ← integer? y⟩
    | _ => none

def boxRole? (t : Tag) : Option BoxRole :=
  [BoxRole.background, .legendFill, .legendBorder].find? fun role =>
    t.text? "opacity" = some role.style.opacity && t.text? "fill" = some role.style.fill &&
      t.text? "stroke" = some role.style.stroke

/-- Thick curves are data up to the first box of the legend, and marks behind it. -/
def curveRole? (t : Tag) (inLegend : Bool) : Option CurveRole :=
  [CurveRole.axis, if inLegend then .legendMark else .data].find? fun role =>
    t.text? "stroke-width" = some role.strokeWidth

def textRole? (t : Tag) : Option TextRole :=
  [TextRole.caption, .xTitle, .yTitle, .xLabel, .yLabel, .legendLabel].find? fun role =>
    t.text? "dy" = some role.style.shift && t.text? "text-anchor" = some role.style.anchor &&
      t.text? "font-size" = some role.style.size &&
      (t.text? "transform").isSome = role.turned

/-- The shape of a tag, with its content if it is a text. -/
def shape? (inLegend : Bool) (t : Tag) (content : List Char) : Option Shape :=
  match t.name with
  | ['r', 'e', 'c', 't'] =>
    return .box (← boxRole? t) (← t.pixel? "x" "y") (← t.integer? "width") (← t.integer? "height")
  | ['l', 'i', 'n', 'e'] => return .meshLine (← t.pixel? "x1" "y1") (← t.pixel? "x2" "y2")
  | ['p', 'o', 'l', 'y', 'l', 'i', 'n', 'e'] =>
    return .curve (← curveRole? t inLegend) (← (t.text? "stroke").bind fun c => color? c.toList)
      (← (t.text? "points").bind fun p => points? p.toList)
  | ['t', 'e', 'x', 't'] =>
    return .text (← textRole? t) (← t.pixel? "x" "y")
      (String.ofList (← Markup.unescape? content))
  | _ => none

/-- A text that has been opened but not closed yet, with the content so far. -/
structure OpenText where
  tag : Tag
  content : Option (List Char)

/-- The shapes on the lines of a document, up to the line that closes it. -/
def shapes? (inLegend : Bool) : Option OpenText → List (List Char) → Option (List Shape)
  | _, [] => none
  | some opened, line :: rest =>
    if line = "</text>".toList then do
      let shape ← shape? inLegend opened.tag (opened.content.getD [])
      return shape :: (← shapes? inLegend none rest)
    else
      let content := match opened.content with
        | none => line
        | some content => content ++ '\n' :: line
      shapes? inLegend (some { opened with content := some content }) rest
  | none, line :: rest =>
    if line = "</svg>".toList then some []
    else do
      let tag ← tag? line
      if tag.name = "text".toList then shapes? inLegend (some ⟨tag, none⟩) rest
      else
        let shape ← shape? inLegend tag []
        let inLegend := inLegend || match shape with
          | .box role .. => role ≠ .background
          | _ => false
        return shape :: (← shapes? inLegend none rest)

def size? (t : Tag) : Option Size :=
  if t.name = "svg".toList then do
    let side (name : String) :=
      (t.text? name).bind fun value => (Numeral.readUInt32 value.toList).toOption
    return ⟨← side "width", ← side "height"⟩
  else none

end SvgReader

/-- The drawing that a document shows, if it was written from one. -/
def Drawing.ofSvg? (text : List Char) : Option Drawing :=
  match SvgReader.splitAt '\n' text with
  | [] => none
  | line :: lines => do
    let size ← (SvgReader.tag? line).bind SvgReader.size?
    return ⟨size, ← SvgReader.shapes? false none lines⟩

end TimingChart
