import TimingChart.Chart.SvgReader
import TimingChart.Proofs.Chart.Tags
import TimingChart.Proofs.Decimal.Characters

/-! # Attribute values that are read back

Pixels, colours, points and sizes are read as they were written, and each role is told from the
others by its style. -/

namespace TimingChart

namespace SvgReader

/-! ## Integers -/

theorem natural?_toDigits (n : Nat) : natural? (Nat.toDigits 10 n) = some n := by
  have hall : (Nat.toDigits 10 n).all Char.isDigit := by
    rw [List.all_eq_true]
    exact fun c => isDigit_of_mem_toDigits
  rw [natural?, if_pos ⟨Nat.toDigits_ne_nil, hall⟩, Nat.ofDigitChars_ten_toDigits]

theorem integer?_integerText (n : Int) : integer? (integerText n) = some n := by
  by_cases hneg : n < 0
  · have hn : Int.negOfNat n.natAbs = n := by
      rw [Int.negOfNat_eq, Int.ofNat_eq_natCast]
      omega
    rw [integerText, if_pos hneg, integer?, natural?_toDigits, Option.map_some, hn]
  · have hn : Int.ofNat n.natAbs = n := by
      rw [Int.ofNat_eq_natCast]
      omega
    rw [integerText, if_neg hneg, integer?]
    · rw [natural?_toDigits, Option.map_some, hn]
    · intro digits htext
      have hmem : '-' ∈ Nat.toDigits 10 n.natAbs := by simp [htext]
      exact absurd (isDigit_of_mem_toDigits hmem) (by decide)

theorem toList_pixelText (n : Int) : (pixelText n).toList = integerText n :=
  String.toList_ofList

theorem integer?_pixelText (n : Int) : integer? (pixelText n).toList = some n := by
  rw [toList_pixelText, integer?_integerText]

/-! ## Colours -/

/-- Two digits are the right ones for each of the bytes. -/
theorem hexByte?_hexByte (b : UInt8) : hexByte? (hexByte b) = some b := by
  have hall : ∀ n : Fin 256, hexByte? (hexByte (UInt8.ofFin n)) = some (UInt8.ofFin n) := by
    decide +kernel
  exact hall b.toFin

theorem isAlphanum_of_mem_hexByte {b : UInt8} {c : Char} (hc : c ∈ hexByte b) :
    c.isAlphanum := by
  have hall : ∀ n : Fin 256, ∀ c ∈ hexByte (UInt8.ofFin n), c.isAlphanum := by
    decide +kernel
  exact hall b.toFin c hc

theorem toList_colorText (c : Color) :
    c.text.toList = '#' :: (hexByte c.red ++ hexByte c.green ++ hexByte c.blue) :=
  String.toList_ofList

theorem color?_text (c : Color) : color? c.text.toList = some c := by
  have hred := hexByte?_hexByte c.red
  have hgreen := hexByte?_hexByte c.green
  have hblue := hexByte?_hexByte c.blue
  rw [toList_colorText]
  simp only [hexByte] at hred hgreen hblue ⊢
  simp [color?, hred, hgreen, hblue]

/-! ## Points -/

theorem toList_pointsText (points : List Pixel) :
    (pointsText points).toList =
      points.flatMap fun p => integerText p.x ++ ',' :: integerText p.y ++ [' '] := by
  rw [pointsText, String.toList_join, List.flatMap_map]
  simp [pixelText]

theorem not_mem_integerText {c : Char} (hc : ¬ IsPlain c) (n : Int) : c ∉ integerText n :=
  fun hmem => hc (isPlain_of_mem_integerText hmem)

theorem splitAt_point (p : Pixel) :
    splitAt ',' (integerText p.x ++ ',' :: integerText p.y) =
      [integerText p.x, integerText p.y] := by
  have hcomma := not_mem_integerText (by decide : ¬ IsPlain ',')
  rw [splitAt_append_cons, splitAt_of_not_mem (hcomma p.x), splitAt_of_not_mem (hcomma p.y)]
  rfl

theorem splitAt_points (points : List Pixel) :
    splitAt ' ' (points.flatMap fun p => integerText p.x ++ ',' :: integerText p.y ++ [' ']) =
      points.map (fun p => integerText p.x ++ ',' :: integerText p.y) ++ [[]] := by
  induction points with
  | nil => rfl
  | cons p points ih =>
      have hblank : ' ' ∉ integerText p.x ++ ',' :: integerText p.y := by
        have hplain := not_mem_integerText (by decide : ¬ IsPlain ' ')
        simp [hplain]
      rw [List.flatMap_cons, List.append_assoc, List.singleton_append, splitAt_append_cons,
        splitAt_of_not_mem hblank, ih]
      rfl

theorem points?_pointsText (points : List Pixel) :
    points? (pointsText points).toList = some points := by
  rw [toList_pointsText, points?, splitAt_points, List.dropLast_concat]
  induction points with
  | nil => rfl
  | cons p points ih =>
      rw [List.map_cons, List.mapM_cons, ih, splitAt_point]
      simp [integer?_integerText]

/-! ## Sizes -/

theorem readUInt32_toDigits (n : UInt32) :
    Numeral.readUInt32 (Nat.toDigits 10 n.toNat) = .ok n := by
  have hvalue : Nat.ofDigitChars 10 (Nat.toDigits 10 n.toNat) 0 = n.toNat :=
    Nat.ofDigitChars_ten_toDigits
  rw [Numeral.readUInt32_digits Nat.toDigits_ne_nil (fun _ hc => isDigit_of_mem_toDigits hc)
    (by rw [hvalue]; exact n.toNat_lt_size), hvalue, UInt32.ofNat_toNat]

theorem size?_attributes (size : Size) :
    size? ⟨"svg".toList, written size.attributes⟩ = some size := by
  rw [size?, if_pos rfl]
  simp only [text?_written]
  simp [Size.attributes, List.lookup_cons, readUInt32_toDigits, Except.toOption]

/-! ## Roles -/

variable {t : Tag}

theorem boxRole?_of_style {role : BoxRole} (hopacity : t.text? "opacity" = some role.style.opacity)
    (hfill : t.text? "fill" = some role.style.fill)
    (hstroke : t.text? "stroke" = some role.style.stroke) : boxRole? t = some role := by
  simp only [boxRole?, hopacity, hfill, hstroke]
  cases role <;> decide +kernel

/-- Thick curves are told apart by whether the legend has begun. -/
theorem curveRole?_of_style {role : CurveRole} {inLegend : Bool}
    (hwidth : t.text? "stroke-width" = some role.strokeWidth)
    (hdata : role = .data → inLegend = false) (hmark : role = .legendMark → inLegend = true) :
    curveRole? t inLegend = some role := by
  simp only [curveRole?, hwidth]
  cases role with
  | axis => cases inLegend <;> decide
  | data =>
      rw [hdata rfl]
      decide
  | legendMark =>
      rw [hmark rfl]
      decide

theorem textRole?_of_style {role : TextRole} (hshift : t.text? "dy" = some role.style.shift)
    (hanchor : t.text? "text-anchor" = some role.style.anchor)
    (hsize : t.text? "font-size" = some role.style.size)
    (hturned : (t.text? "transform").isSome = role.turned) : textRole? t = some role := by
  simp only [textRole?, hshift, hanchor, hsize, hturned]
  cases role <;> decide +kernel

end SvgReader

end TimingChart
