import TimingChart.Proofs.Binary64.Whole
import TimingChart.Proofs.Chart.Lines
import TimingChart.Proofs.Chart.Ranges

/-! # Where points are drawn

A value is placed by a chain of rounded operations: its distance from the low end of the range, as a
fraction of the span, times the length in pixels, and of that the whole part. Each of them keeps the
order, and bounds that are doubles. So points are drawn in the order of their coordinates, and inside
the plotting area. -/

namespace TimingChart

open Binary64

attribute [local irreducible] Binary64.ofInt

/-! ## Fractions of a length -/

theorem pixelTolerance_between : pixelTolerance.IsBetween 0 (1 / 2) := by
  have hhalf : IsExact (1 / 2) := isExact_half (n := 1) (by decide)
  apply isBetween_nearest false isExact_zero hhalf
  · norm_num [Rat.mkRat_eq_div]
  · norm_num [Rat.mkRat_eq_div]

/-- The whole pixels in a fraction of a length, on the way from the first pixel to the last. -/
def pixelOffset (length : Int) (fraction : Binary64) : Int :=
  if 0 < length then (ofInt length * fraction + pixelTolerance).floor.toInt32
  else (ofInt length * fraction - pixelTolerance).ceil.toInt32

section Offsets

variable {length : Int} {fraction fraction' : Binary64}

/-- The product of a length and a fraction lies between those of the length and the bounds. -/
theorem length_mul_between (hlength : length.natAbs ≤ 0x7FFFFFFF) {c : Int} (hc : c = 0 ∨ c = 1)
    (hfraction : fraction.IsBetween 0 c) :
    (0 ≤ length → (ofInt length * fraction).IsBetween 0 (length * c : Int)) ∧
      (length ≤ 0 → (ofInt length * fraction).IsBetween (length * c : Int) 0) := by
  obtain ⟨hfinite, hvalue⟩ := ofInt_spec (n := length) (by omega)
  obtain ⟨s, hs⟩ := mul_eq_nearest hfinite hfraction.finite
  have hexact : IsExact (length * c : Int) := by
    apply isExact_intCast
    rcases hc with rfl | rfl <;> omega
  rw [hs, hvalue]
  constructor
  · intro hnonneg
    have hcast : (0 : Rat) ≤ length := by exact_mod_cast hnonneg
    apply isBetween_nearest s isExact_zero hexact
    · exact mul_nonneg hcast hfraction.low_le
    · push_cast
      exact mul_le_mul_of_nonneg_left hfraction.le_high hcast
  · intro hnonpos
    have hcast : (length : Rat) ≤ 0 := by exact_mod_cast hnonpos
    apply isBetween_nearest s hexact isExact_zero
    · push_cast
      exact mul_le_mul_of_nonpos_left hfraction.le_high hcast
    · exact mul_nonpos_of_nonpos_of_nonneg hcast hfraction.low_le

/-- The exact whole part that an offset is, and its bounds. -/
theorem pixelOffset_of_pos (hpos : 0 < length) (hlength : length ≤ 0x7FFFFFFF) {c : Int}
    (hc : c = 0 ∨ c = 1) (hfraction : fraction.IsBetween 0 c) :
    (ofInt length * fraction + pixelTolerance).isFinite ∧
      pixelOffset length fraction = ⌊(ofInt length * fraction + pixelTolerance).toRat⌋ ∧
      0 ≤ pixelOffset length fraction ∧ pixelOffset length fraction ≤ length * c := by
  have hproduct := (length_mul_between (by omega) hc hfraction).1 hpos.le
  obtain ⟨s, hs⟩ := add_eq_nearest hproduct.finite pixelTolerance_between.finite
  have hbound : 0 ≤ length * c ∧ length * c ≤ 0x7FFFFFFF := by
    rcases hc with rfl | rfl <;> omega
  have hsum : (ofInt length * fraction + pixelTolerance).IsBetween 0
      ((2 * (length * c) + 1 : Int) / 2) := by
    rw [hs]
    apply isBetween_nearest s isExact_zero (isExact_half (by omega))
    · exact add_nonneg hproduct.low_le pixelTolerance_between.low_le
    · have hhigh := hproduct.le_high
      have htolerance := pixelTolerance_between.le_high
      push_cast at hhigh ⊢
      linarith
  obtain ⟨hlow, hhigh⟩ := hsum.floor_le
  have heq : pixelOffset length fraction =
      ⌊(ofInt length * fraction + pixelTolerance).toRat⌋ := by
    rw [pixelOffset, if_pos hpos, toInt32_floor hsum.finite (by omega) (by omega)]
  rw [heq]
  exact ⟨hsum.finite, rfl, hlow, hhigh⟩

theorem pixelOffset_of_neg (hneg : length < 0) (hlength : -0x7FFFFFFF ≤ length) {c : Int}
    (hc : c = 0 ∨ c = 1) (hfraction : fraction.IsBetween 0 c) :
    (ofInt length * fraction - pixelTolerance).isFinite ∧
      pixelOffset length fraction = ⌈(ofInt length * fraction - pixelTolerance).toRat⌉ ∧
      length * c ≤ pixelOffset length fraction ∧ pixelOffset length fraction ≤ 0 := by
  have hproduct := (length_mul_between (by omega) hc hfraction).2 hneg.le
  obtain ⟨s, hs⟩ := sub_eq_nearest hproduct.finite pixelTolerance_between.finite
  have hbound : -0x7FFFFFFF ≤ length * c ∧ length * c ≤ 0 := by
    rcases hc with rfl | rfl <;> omega
  have hdifference : (ofInt length * fraction - pixelTolerance).IsBetween
      ((2 * (length * c) - 1 : Int) / 2) 0 := by
    rw [hs]
    apply isBetween_nearest s (isExact_half (by omega)) isExact_zero
    · have hlow := hproduct.low_le
      have htolerance := pixelTolerance_between.le_high
      push_cast at hlow ⊢
      linarith
    · exact sub_nonpos.mpr (hproduct.le_high.trans pixelTolerance_between.low_le)
  obtain ⟨hlow, hhigh⟩ := hdifference.le_ceil
  have heq : pixelOffset length fraction =
      ⌈(ofInt length * fraction - pixelTolerance).toRat⌉ := by
    rw [pixelOffset, if_neg hneg.not_gt, toInt32_ceil hdifference.finite (by omega) (by omega)]
  rw [heq]
  exact ⟨hdifference.finite, rfl, hlow, hhigh⟩

/-- A larger fraction is not a smaller offset, in the direction of the length. -/
theorem pixelOffset_mono (hlength : length.natAbs ≤ 0x7FFFFFFF) (hfraction : fraction.IsBetween 0 1)
    (hfraction' : fraction'.IsBetween 0 1) (hle : fraction.toRat ≤ fraction'.toRat) :
    (0 < length → pixelOffset length fraction ≤ pixelOffset length fraction') ∧
      (length < 0 → pixelOffset length fraction' ≤ pixelOffset length fraction) := by
  have hone : ((1 : Int) : Rat) = 1 := Int.cast_one
  rw [← hone] at hfraction hfraction'
  obtain ⟨hfinite, hvalue⟩ := ofInt_spec (n := length) (by omega)
  have hbetween := length_mul_between hlength (.inr rfl) hfraction
  have hbetween' := length_mul_between hlength (.inr rfl) hfraction'
  have htolerance := pixelTolerance_between.finite
  constructor
  · intro hpos
    have hnonneg : 0 ≤ (ofInt length).toRat := by
      rw [hvalue]
      exact_mod_cast hpos.le
    have hproduct := (hbetween.1 hpos.le).finite
    have hproduct' := (hbetween'.1 hpos.le).finite
    have hmul := (toRat_mul_le hfraction.finite hfraction'.finite hfinite hle hproduct
      hproduct').1 hnonneg
    obtain ⟨hsum, heq, -⟩ := pixelOffset_of_pos hpos (by omega) (.inr rfl) hfraction
    obtain ⟨hsum', heq', -⟩ := pixelOffset_of_pos hpos (by omega) (.inr rfl) hfraction'
    rw [heq, heq']
    exact Int.floor_le_floor (toRat_add_le hproduct hproduct' htolerance hmul hsum hsum')
  · intro hneg
    have hnonpos : (ofInt length).toRat ≤ 0 := by
      rw [hvalue]
      exact_mod_cast hneg.le
    have hproduct := (hbetween.2 hneg.le).finite
    have hproduct' := (hbetween'.2 hneg.le).finite
    have hmul := (toRat_mul_le hfraction.finite hfraction'.finite hfinite hle hproduct
      hproduct').2 hnonpos
    obtain ⟨hdifference, heq, -⟩ := pixelOffset_of_neg hneg (by omega) (.inr rfl) hfraction
    obtain ⟨hdifference', heq', -⟩ := pixelOffset_of_neg hneg (by omega) (.inr rfl) hfraction'
    rw [heq, heq']
    exact Int.ceil_le_ceil
      (toRat_sub_le hproduct' hproduct htolerance hmul hdifference' hdifference)

/-- No part of a length is no offset, and neither is what is no number. -/
theorem pixelOffset_eq_zero (hne : length ≠ 0) (hlength : length.natAbs ≤ 0x7FFFFFFF)
    (h : fraction = .nan ∨ fraction.IsBetween 0 0) : pixelOffset length fraction = 0 := by
  rcases h with rfl | hzero
  · have hnan : ∀ x : Binary64, x * .nan = .nan := by
      intro x
      cases x <;> rfl
    rw [pixelOffset, hnan]
    split
    · rfl
    · rfl
  · have hcast : ((0 : Int) : Rat) = 0 := Int.cast_zero
    have hzero' : fraction.IsBetween 0 (0 : Int) := by rwa [hcast]
    rcases lt_or_gt_of_ne hne with hneg | hpos
    · obtain ⟨-, -, hlow, hhigh⟩ := pixelOffset_of_neg hneg (by omega) (.inl rfl) hzero'
      omega
    · obtain ⟨-, -, hlow, hhigh⟩ := pixelOffset_of_pos hpos (by omega) (.inl rfl) hzero'
      omega

end Offsets

/-! ## Values in a range -/

namespace Range

/-- The value lies between the bounds. -/
def Contains (r : Range) (v : Binary64) : Prop := r.low ≤ v ∧ v ≤ r.high

/-- The part of the span that lies below a value. -/
def fraction (r : Range) (v : Binary64) : Binary64 := (v - r.low) / r.span

variable {r : Range} {v w : Binary64}

theorem IsProper.isFinite (hr : r.IsProper) (hv : r.Contains v) : v.isFinite :=
  isFinite_of_le_of_le hr.lowFinite hr.highFinite hv.1 hv.2

section Fractions

variable (hr : r.IsProper)
include hr

/-- The distance from the low end is at most the span. -/
theorem sub_low_between (hspan : r.span.isFinite) (hv : r.Contains v) :
    (v - r.low).IsBetween 0 r.span.toRat := by
  have hfinite := hr.isFinite hv
  have hlow := (le_iff_toRat hr.lowFinite hfinite).mp hv.1
  have hhigh := (le_iff_toRat hfinite hr.highFinite).mp hv.2
  obtain ⟨s, hs⟩ := sub_eq_nearest hfinite hr.lowFinite
  obtain ⟨t, ht⟩ := sub_eq_nearest hr.highFinite hr.lowFinite
  have hnonneg : 0 ≤ v - r.low := by
    rw [hs]
    exact le_nearest s zero_spec.1 (zero_spec.2.trans_le (sub_nonneg.mpr hlow))
  have hle : v - r.low ≤ r.span := by
    rw [span, hs, ht]
    exact nearest_mono s t (by linarith)
  have hdistance := isFinite_of_le_of_le zero_spec.1 hspan hnonneg hle
  rw [le_iff_toRat zero_spec.1 hdistance, zero_spec.2] at hnonneg
  exact ⟨hdistance, hnonneg, (le_iff_toRat hdistance hspan).mp hle⟩

/-- If the span is too large for a double, no value is any part of it. -/
theorem fraction_of_overflow (hspan : ¬ r.span.isFinite) (v : Binary64) :
    r.fraction v = .nan ∨ (r.fraction v).IsBetween 0 0 := by
  obtain ⟨s, hs⟩ := sub_eq_nearest hr.highFinite hr.lowFinite
  obtain ⟨t, ht⟩ : ∃ t, r.span = .infinite t := by
    rw [span, hs] at hspan ⊢
    exact exists_infinite_of_nearest hspan
  rw [fraction, ht]
  exact div_infinite _ t

variable (hlt : r.low < r.high)
include hlt

theorem toRat_span_pos (hspan : r.span.isFinite) : 0 < r.span.toRat :=
  toRat_sub_pos hr.highFinite hr.lowFinite ((lt_iff_toRat hr.lowFinite hr.highFinite).mp hlt) hspan

theorem fraction_between (hspan : r.span.isFinite) (hv : r.Contains v) :
    (r.fraction v).IsBetween 0 1 := by
  have hpos := toRat_span_pos hr hlt hspan
  have hdistance := sub_low_between hr hspan hv
  obtain ⟨s, hs⟩ := div_eq_nearest hdistance.finite hspan hpos.ne'
  rw [fraction, hs]
  apply isBetween_nearest s isExact_zero ⟨1, one_spec⟩
  · exact div_nonneg hdistance.low_le hpos.le
  · exact (div_le_one hpos).mpr hdistance.le_high

theorem fraction_mono (hspan : r.span.isFinite) (hv : r.Contains v) (hw : r.Contains w)
    (hle : v ≤ w) : (r.fraction v).toRat ≤ (r.fraction w).toRat := by
  have hfinite := hr.isFinite hv
  have hfinite' := hr.isFinite hw
  have hdistance := (sub_low_between hr hspan hv).finite
  have hdistance' := (sub_low_between hr hspan hw).finite
  have hsub := toRat_sub_le hfinite hfinite' hr.lowFinite
    ((le_iff_toRat hfinite hfinite').mp hle) hdistance hdistance'
  exact toRat_div_le hdistance hdistance' hspan hsub (toRat_span_pos hr hlt hspan)
    (fraction_between hr hlt hspan hv).finite (fraction_between hr hlt hspan hw).finite

end Fractions

/-! ## Pixels of values -/

variable {pixels : PixelSpan}

theorem toPixel_of_lt (hlt : r.low < r.high) (hne : pixels.last - pixels.first ≠ 0)
    (hfraction : ∀ t, r.fraction v ≠ .infinite t) :
    r.toPixel pixels v =
      pixels.first + pixelOffset (pixels.last - pixels.first) (r.fraction v) := by
  rw [toPixel, equals_eq_false_of_lt hlt, if_neg Bool.false_ne_true]
  dsimp only
  rw [if_neg hne, pixelOffset, ← fraction]
  split
  next negative heq => exact absurd heq (hfraction negative)
  next => split <;> rfl

theorem toPixel_of_not_lt (hr : r.IsProper) (hnot : ¬ r.low < r.high) (v : Binary64) :
    r.toPixel pixels v = (pixels.last - pixels.first).tdiv 2 := by
  rw [toPixel, equals_of_le_of_not_lt hr.lowFinite hr.highFinite hr.ordered hnot, if_pos rfl]

/-- Each value in the range has a fraction from zero to one by which it is placed, and larger values
have no smaller fractions. -/
theorem exists_fractions (hr : r.IsProper) (hlt : r.low < r.high)
    (hne : pixels.last - pixels.first ≠ 0)
    (hsmall : (pixels.last - pixels.first).natAbs ≤ 0x7FFFFFFF) :
    ∃ place : Binary64 → Binary64,
      (∀ v, r.Contains v → (place v).IsBetween 0 1 ∧ r.toPixel pixels v =
        pixels.first + pixelOffset (pixels.last - pixels.first) (place v)) ∧
      ∀ v w, r.Contains v → r.Contains w → v ≤ w → (place v).toRat ≤ (place w).toRat := by
  by_cases hspan : r.span.isFinite
  · refine ⟨r.fraction, fun v hv => ?_, fun v w hv hw hle => fraction_mono hr hlt hspan hv hw hle⟩
    have hbetween := fraction_between hr hlt hspan hv
    refine ⟨hbetween, toPixel_of_lt hlt hne fun t ht => ?_⟩
    have hfinite := hbetween.finite
    rw [ht] at hfinite
    cases hfinite
  · -- all values stand at the first pixel, as if they were at the low end
    refine ⟨fun _ => 0, fun v _ => ⟨?_, ?_⟩, fun _ _ _ _ _ => le_rfl⟩
    · exact ⟨zero_spec.1, zero_spec.2.ge, zero_spec.2.trans_le zero_le_one⟩
    · have hoverflow := fraction_of_overflow hr hspan v
      rw [toPixel_of_lt hlt hne, pixelOffset_eq_zero hne hsmall hoverflow,
        pixelOffset_eq_zero hne hsmall (.inr ⟨zero_spec.1, zero_spec.2.ge, zero_spec.2.le⟩)]
      intro t ht
      rw [ht] at hoverflow
      rcases hoverflow with hnan | hzero
      · cases hnan
      · cases hzero.finite

/-- A range that is not a single point is spread over a span of pixels: all values are placed on it,
in their order or against it. -/
theorem toPixel_spread (hr : r.IsProper) (hlt : r.low < r.high)
    (hsmall : (pixels.last - pixels.first).natAbs ≤ 0x7FFFFFFF) (hv : r.Contains v)
    (hw : r.Contains w) :
    (pixels.first ≤ pixels.last →
      pixels.first ≤ r.toPixel pixels v ∧ r.toPixel pixels v ≤ pixels.last ∧
        (v ≤ w → r.toPixel pixels v ≤ r.toPixel pixels w)) ∧
    (pixels.last ≤ pixels.first →
      pixels.last ≤ r.toPixel pixels v ∧ r.toPixel pixels v ≤ pixels.first ∧
        (v ≤ w → r.toPixel pixels w ≤ r.toPixel pixels v)) := by
  by_cases hne : pixels.last - pixels.first = 0
  · have hlast : ∀ u, r.toPixel pixels u = pixels.last := by
      intro u
      rw [toPixel, equals_eq_false_of_lt hlt, if_neg Bool.false_ne_true]
      exact if_pos hne
    rw [hlast v, hlast w]
    omega
  · obtain ⟨place, hplace, hmono⟩ := exists_fractions hr hlt hne hsmall
    obtain ⟨hbetween, hpixel⟩ := hplace v hv
    obtain ⟨hbetween', hpixel'⟩ := hplace w hw
    have hone : (place v).IsBetween 0 (1 : Int) := by rwa [Int.cast_one]
    rw [hpixel, hpixel']
    constructor
    · intro hle
      have hpos : 0 < pixels.last - pixels.first := by omega
      obtain ⟨-, -, hlow, hhigh⟩ := pixelOffset_of_pos hpos (by omega) (.inr rfl) hone
      refine ⟨by omega, by omega, fun hvw => ?_⟩
      have hoffset := (pixelOffset_mono hsmall hbetween hbetween' (hmono v w hv hw hvw)).1 hpos
      omega
    · intro hle
      have hneg : pixels.last - pixels.first < 0 := by omega
      obtain ⟨-, -, hlow, hhigh⟩ := pixelOffset_of_neg hneg (by omega) (.inr rfl) hone
      refine ⟨by omega, by omega, fun hvw => ?_⟩
      have hoffset := (pixelOffset_mono hsmall hbetween hbetween' (hmono v w hv hw hvw)).2 hneg
      omega

/-- No value of the range is placed behind the last pixel, and the order is kept. A range that is a
single point puts all its values at half the length, counted from zero. -/
theorem toPixel_ascending (hr : r.IsProper) (hfirst : 0 ≤ pixels.first)
    (hle : pixels.first ≤ pixels.last) (hlast : pixels.last ≤ 0x7FFFFFFF) (hv : r.Contains v)
    (hw : r.Contains w) :
    r.toPixel pixels v ≤ pixels.last ∧ (v ≤ w → r.toPixel pixels v ≤ r.toPixel pixels w) := by
  by_cases hlt : r.low < r.high
  · exact ((toPixel_spread hr hlt (by omega) hv hw).1 hle).2
  · rw [toPixel_of_not_lt hr hlt, toPixel_of_not_lt hr hlt,
      Int.tdiv_eq_ediv_of_nonneg (by omega)]
    omega

theorem toPixel_descending (hr : r.IsProper) (hlast : 0 ≤ pixels.last)
    (hle : pixels.last ≤ pixels.first) (hfirst : pixels.first ≤ 0x7FFFFFFF) (hv : r.Contains v)
    (hw : r.Contains w) :
    r.toPixel pixels v ≤ pixels.first ∧ (v ≤ w → r.toPixel pixels w ≤ r.toPixel pixels v) := by
  by_cases hlt : r.low < r.high
  · exact ((toPixel_spread hr hlt (by omega) hv hw).2 hle).2
  · have hlength : pixels.last - pixels.first ≤ 0 := by omega
    have hhalf := Int.tdiv_le_tdiv (c := 2) (by decide) hlength
    rw [Int.zero_tdiv] at hhalf
    rw [toPixel_of_not_lt hr hlt, toPixel_of_not_lt hr hlt]
    omega

end Range

end TimingChart
