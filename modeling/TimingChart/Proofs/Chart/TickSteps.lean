import TimingChart.Chart.Ticks
import TimingChart.Proofs.Binary64.Logarithms

/-! # Steps between ticks

On a range that is wide and not too far from zero, a step below five gives more ticks than are
wanted. So the step that is chosen is five or more. -/

namespace TimingChart

namespace Ticks

open Binary64

/-! ## Whole steps -/

section Remainders

variable {value step : Binary64} (hvalue : value.isFinite) (hstep : step.isFinite)
  (hsmall : |value.toRat| ≤ 2 ^ 54) (hlow : 1 / 2 ≤ step.toRat) (hhigh : step.toRat ≤ 5)
include hvalue hstep hsmall hlow hhigh

/-- The multiple of the step below a value, but for a few units in the last place. -/
theorem steps_mul_step :
    ((value / step).floor * step).isFinite ∧
      -(21 / 5) ≤ value.toRat - ((value / step).floor * step).toRat ∧
      value.toRat - ((value / step).floor * step).toRat ≤ step.toRat + 21 / 5 := by
  have hpos : 0 < step.toRat := by linarith
  have hquotient : |value.toRat / step.toRat| ≤ 2 ^ 55 := by
    rw [abs_div, abs_of_pos hpos, div_le_iff₀ hpos]
    linarith
  obtain ⟨hfinite, hnear⟩ := near_of_eq_nearest (div_eq_nearest hvalue hstep hpos.ne')
    (hquotient.trans (by norm_num))
  -- measured in steps, the error of the quotient is one of the value
  have herror : |(value / step).toRat * step.toRat - value.toRat| ≤ 21 / 10 := by
    have hscaled := mul_le_mul_of_nonneg_right hnear hpos.le
    rw [← abs_of_pos hpos, ← abs_mul, abs_of_pos hpos, sub_mul,
      div_mul_cancel₀ _ hpos.ne'] at hscaled
    refine hscaled.trans ?_
    rw [div_mul_eq_mul_div, add_mul, abs_div, abs_of_pos hpos, div_mul_cancel₀ _ hpos.ne',
      div_le_iff₀ (by norm_num)]
    linarith
  obtain ⟨hlow', hhigh'⟩ := abs_le.mp herror
  obtain ⟨hvalueLow, hvalueHigh⟩ := abs_le.mp hsmall
  obtain ⟨hfloorFinite, hfloor⟩ := floor_spec hfinite
  have hbelow := mul_le_mul_of_nonneg_right (Int.floor_le (value / step).toRat) hpos.le
  have habove := mul_lt_mul_of_pos_right (Int.lt_floor_add_one (value / step).toRat) hpos
  rw [← hfloor] at hbelow habove
  have hproduct : |(value / step).floor.toRat * step.toRat| ≤ 2 ^ 54 + 8 :=
    abs_le.mpr ⟨by linarith, by linarith⟩
  obtain ⟨hproductFinite, hleast, hmost⟩ :=
    between_of_eq_nearest (mul_eq_nearest hfloorFinite hstep) hproduct (by norm_num)
  norm_num at hleast hmost
  exact ⟨hproductFinite, by linarith, by linarith⟩

theorem remainder_spec :
    (remainder value step).isFinite ∧ -5 ≤ (remainder value step).toRat ∧
      (remainder value step).toRat ≤ step.toRat + 5 := by
  have hpos : (0 : Binary64) < step := by
    rw [lt_iff_toRat zero_spec.1 hstep, zero_spec.2]
    linarith
  obtain ⟨hfinite, hleast, hmost⟩ := steps_mul_step hvalue hstep hsmall hlow hhigh
  have hrest : |value.toRat - ((value / step).floor * step).toRat| ≤ 10 :=
    abs_le.mpr ⟨by linarith, by linarith⟩
  obtain ⟨hrestFinite, hleast', hmost'⟩ :=
    between_of_eq_nearest (sub_eq_nearest hvalue hfinite) hrest (by norm_num)
  norm_num at hleast' hmost'
  rw [remainder, if_pos hpos]
  split
  · refine ⟨zero_spec.1, ?_, ?_⟩
    all_goals rw [zero_spec.2]; linarith
  · exact ⟨hrestFinite, by linarith, by linarith⟩

/-- The value without its remainder. -/
theorem sub_remainder_spec :
    (value - remainder value step).isFinite ∧
      value.toRat - step.toRat - 8 ≤ (value - remainder value step).toRat ∧
      (value - remainder value step).toRat ≤ value.toRat + 8 := by
  obtain ⟨hvalueLow, hvalueHigh⟩ := abs_le.mp hsmall
  obtain ⟨hfinite, hleast, hmost⟩ := remainder_spec hvalue hstep hsmall hlow hhigh
  have hdifference : |value.toRat - (remainder value step).toRat| ≤ 2 ^ 54 + 10 :=
    abs_le.mpr ⟨by linarith, by linarith⟩
  obtain ⟨hfinite', hleast', hmost'⟩ :=
    between_of_eq_nearest (sub_eq_nearest hvalue hfinite) hdifference (by norm_num)
  norm_num at hleast' hmost'
  exact ⟨hfinite', by linarith, by linarith⟩

theorem lastUpTo_spec :
    (lastUpTo value step).isFinite ∧ value.toRat - step.toRat - 8 ≤ (lastUpTo value step).toRat ∧
      (lastUpTo value step).toRat ≤ value.toRat + 8 :=
  sub_remainder_spec hvalue hstep hsmall hlow hhigh

theorem firstFrom_spec :
    (firstFrom value step).isFinite ∧ value.toRat - step.toRat - 11 ≤ (firstFrom value step).toRat ∧
      (firstFrom value step).toRat ≤ value.toRat + step.toRat + 8 := by
  obtain ⟨hvalueLow, hvalueHigh⟩ := abs_le.mp hsmall
  obtain ⟨hfinite, hleast, hmost⟩ := sub_remainder_spec hvalue hstep hsmall hlow hhigh
  rw [firstFrom]
  split
  · next hbelow =>
    rw [lt_iff_toRat hfinite hvalue] at hbelow
    have hsum : |(value - remainder value step).toRat + step.toRat| ≤ 2 ^ 54 + 20 :=
      abs_le.mpr ⟨by linarith, by linarith⟩
    obtain ⟨hfinite', hleast', hmost'⟩ :=
      between_of_eq_nearest (add_eq_nearest hfinite hstep) hsum (by norm_num)
    norm_num at hleast' hmost'
    exact ⟨hfinite', by linarith, by linarith⟩
  · exact ⟨hfinite, by linarith, by linarith⟩

end Remainders

/-! ## Steps that give too many ticks -/

/-- The bounds of a range are a hundred apart, or more, and not too far from zero. -/
structure IsWide (range : Range) : Prop where
  lowFinite : range.low.isFinite
  highFinite : range.high.isFinite
  lowSmall : |range.low.toRat| ≤ 2 ^ 54
  highSmall : |range.high.toRat| ≤ 2 ^ 54
  apart : range.low.toRat + 100 ≤ range.high.toRat

section Many

variable {length step divisor : Binary64} (hlength : length.IsBetween 65 (2 ^ 57))
  (hstep : step.isFinite) (hlow : 1 / 2 ≤ step.toRat) (hhigh : step.toRat ≤ 5 * divisor.toRat)
  (hdivisor : divisor.IsBetween 1 10)
include hlength hstep hlow hhigh hdivisor

/-- The steps that a length is divided into, divided further. -/
theorem pieces_between : (length / step * divisor).IsBetween 12 (2 ^ 65) := by
  have hge := hdivisor.low_le
  have hle := hdivisor.le_high
  have hlong := hlength.low_le
  have hlong' := hlength.le_high
  have hpos : 0 < step.toRat := by linarith
  have hmany : 13 ≤ length.toRat / step.toRat * divisor.toRat := by
    rw [div_mul_eq_mul_div, le_div_iff₀ hpos]
    nlinarith
  have hnonneg : 0 ≤ length.toRat / step.toRat := div_nonneg (by linarith) hpos.le
  have hquotient : |length.toRat / step.toRat| ≤ 2 ^ 58 := by
    rw [abs_of_nonneg hnonneg, div_le_iff₀ hpos]
    linarith
  obtain ⟨hfinite, hnear⟩ := near_of_eq_nearest
    (div_eq_nearest hlength.finite hstep hpos.ne') (hquotient.trans (by norm_num))
  rw [abs_of_nonneg hnonneg] at hquotient hnear
  obtain ⟨hleast, hmost⟩ := abs_le.mp hnear
  -- the error of the quotient is too small to make up for a whole step
  have hscaled := mul_le_mul_of_nonneg_right hleast (by linarith : 0 ≤ divisor.toRat)
  have hproduct : 12 ≤ (length / step).toRat * divisor.toRat := by
    have hexpand : -((length.toRat / step.toRat + 1) / 2 ^ 53) * divisor.toRat =
        -(length.toRat / step.toRat * divisor.toRat + divisor.toRat) / 2 ^ 53 := by ring
    rw [hexpand, sub_mul, neg_div] at hscaled
    norm_num at hscaled
    linarith
  have hproduct' : |(length / step).toRat * divisor.toRat| ≤ 2 ^ 64 := by
    rw [abs_of_nonneg (by linarith)]
    norm_num at hmost
    nlinarith
  have hrounded := mul_eq_nearest hfinite hdivisor.finite
  obtain ⟨hfinite', hlow'⟩ := le_of_eq_nearest hrounded
    (isExact_intCast (n := 12) (by decide)) (by exact_mod_cast hproduct)
    (hproduct'.trans (by norm_num))
  obtain ⟨-, -, hhigh'⟩ := between_of_eq_nearest hrounded hproduct' (by norm_num)
  obtain ⟨-, hproduct''⟩ := abs_le.mp hproduct'
  norm_num at hhigh' hproduct''
  exact ⟨hfinite', by exact_mod_cast hlow', by linarith⟩

/-- More than a dozen steps below five make up a length of 65. -/
theorem many_of_le_length : (1 + length / step * divisor).IsBetween 13 (2 ^ 99) := by
  have hpieces := pieces_between hlength hstep hlow hhigh hdivisor
  have hge := hpieces.low_le
  have hle := hpieces.le_high
  have hsum : |(1 : Binary64).toRat + (length / step * divisor).toRat| ≤ 2 ^ 66 := by
    rw [one_spec.2, abs_of_nonneg (by linarith)]
    linarith
  have hadd := add_eq_nearest one_spec.1 hpieces.finite
  obtain ⟨hticks, hleast⟩ := le_of_eq_nearest hadd (isExact_intCast (n := 13) (by decide))
    (by rw [one_spec.2]; push_cast; linarith) (hsum.trans (by norm_num))
  obtain ⟨-, -, hmost⟩ := between_of_eq_nearest hadd hsum (by norm_num)
  rw [one_spec.2] at hmost
  norm_num at hmost
  exact ⟨hticks, by exact_mod_cast hleast, by linarith⟩

end Many

section Fits

variable {range : Range} (hr : IsWide range) {step : Binary64} (hstep : step.IsBetween (1 / 2) 5)
include hr hstep

/-- From the first to the last multiple of a small step it is not much less than the whole range. -/
theorem length_between :
    (lastUpTo range.high step - firstFrom range.low step).IsBetween 65 (2 ^ 57) := by
  obtain ⟨hlowLow, hlowHigh⟩ := abs_le.mp hr.lowSmall
  obtain ⟨hhighLow, hhighHigh⟩ := abs_le.mp hr.highSmall
  have hapart := hr.apart
  have hleast := hstep.low_le
  have hmost := hstep.le_high
  obtain ⟨hlastFinite, hlast, hlast'⟩ :=
    lastUpTo_spec hr.highFinite hstep.finite hr.highSmall hleast hmost
  obtain ⟨hfirstFinite, hfirst, hfirst'⟩ :=
    firstFrom_spec hr.lowFinite hstep.finite hr.lowSmall hleast hmost
  have hdifference :
      |(lastUpTo range.high step).toRat - (firstFrom range.low step).toRat| ≤ 2 ^ 56 :=
    abs_le.mpr ⟨by linarith, by linarith⟩
  obtain ⟨hfinite, hlow, hhigh⟩ :=
    between_of_eq_nearest (sub_eq_nearest hlastFinite hfirstFinite) hdifference (by norm_num)
  norm_num at hlow hhigh
  obtain ⟨-, hdifference'⟩ := abs_le.mp hdifference
  exact ⟨hfinite, by linarith, by linarith⟩

end Fits

/-- The numbers that a step is divided by. -/
theorem divisor_between {n : Nat} (hn : 1 ≤ n) (hn' : n ≤ 10) :
    (OfNat.ofNat n : Binary64).IsBetween 1 10 := by
  obtain ⟨hfinite, hvalue⟩ := ofNat_spec (n := n) (by omega)
  refine ⟨hfinite, ?_, ?_⟩
  all_goals rw [hvalue]; exact_mod_cast ‹_›

section Fits

variable {range : Range} (hr : IsWide range) {step divisor : Binary64}
  (hdivisor : divisor.IsBetween 1 10)
include hr hdivisor

theorem fits_eq_false (hstep : step.isFinite) (hlow : 5 ≤ step.toRat)
    (hhigh : step.toRat ≤ 5 * divisor.toRat) : fits range step divisor = false := by
  have hge := hdivisor.low_le
  have hle := hdivisor.le_high
  have hpos : 0 < divisor.toRat := by linarith
  have hfiner : (step / divisor).IsBetween (1 / 2) 5 := by
    obtain ⟨s, hs⟩ := div_eq_nearest hstep hdivisor.finite hpos.ne'
    rw [hs]
    refine isBetween_nearest s (isExact_half (n := 1) (by decide))
      (isExact_intCast (n := 5) (by decide)) ?_ ?_
    · rw [le_div_iff₀ hpos]
      linarith
    · rw [div_le_iff₀ hpos]
      exact hhigh
  have hlength := length_between hr hfiner
  have hticks := many_of_le_length hlength hstep (by linarith) hhigh hdivisor
  obtain ⟨hround, hcount⟩ := le_toRat_round (n := 13) (by decide) (by decide)
    hticks.finite (by exact_mod_cast hticks.low_le) hticks.le_high
  have hmany := le_toCount (n := 13) (by decide) hround hcount
  rw [fits]
  exact decide_eq_false (by rw [wanted]; omega)

/-- A step that fits is five or more. -/
theorem isAtLeast_of_fits (hstep : step.IsAtLeast 5) (h : fits range step divisor = true) :
    (step / divisor).IsAtLeast 5 := by
  have hpos : 0 < divisor.toRat := zero_lt_one.trans_le hdivisor.low_le
  have hfive := isExact_intCast (n := 5) (by decide)
  rcases hstep with rfl | ⟨hfinite, hge⟩
  · have hinfinite : (infinite false).IsAtLeast 50 := .inl rfl
    refine hinfinite.div hdivisor.finite hpos hfive ?_
    rw [le_div_iff₀ hpos]
    linarith [hdivisor.le_high]
  · rcases le_or_gt step.toRat (5 * divisor.toRat) with hle | hgt
    · rw [fits_eq_false hr hdivisor hfinite hge hle] at h
      exact absurd h Bool.false_ne_true
    · refine IsAtLeast.div (.inr ⟨hfinite, hgt.le⟩) hdivisor.finite hpos hfive ?_
      rw [mul_div_cancel_right₀ _ hpos.ne']

end Fits

/-! ## The step that is chosen -/

/-- Ticks are five or more apart, on a grid of multiples of what is not negative. -/
structure Scale.IsCoarse (scale : Scale) : Prop where
  step : scale.step.IsAtLeast 5
  grain : scale.grain.IsAtLeast 0

section Scales

variable {range : Range} (hr : IsWide range)
include hr

theorem span_isAtLeast : range.span.IsAtLeast 64 := by
  obtain ⟨s, hs⟩ := sub_eq_nearest hr.highFinite hr.lowFinite
  rw [Range.span, hs]
  refine isAtLeast_nearest s (isExact_intCast (n := 64) (by decide)) ?_
  linarith [hr.apart]

theorem coarse_isCoarse : (coarse range).IsCoarse := by
  obtain ⟨hfinite, hpos, hle⟩ := ln_ten_spec
  have hone := isExact_intCast (n := 1) (by decide)
  have hquotient := (span_isAtLeast hr).ln.div hfinite hpos hone (by
    rw [le_div_iff₀ hpos]
    push_cast
    linarith)
  have hstep := (hquotient.floor (by decide)).tenTo
  obtain ⟨hten, hvalue⟩ := ten_spec
  have hten' : 0 < (10 : Binary64).toRat := by rw [hvalue]; norm_num
  have htenth := hstep.div hten hten' isExact_zero (by rw [hvalue]; norm_num)
  rw [coarse]
  split
  · refine ⟨hstep.mul hten hten' (isExact_intCast (n := 5) (by decide)) ?_, ?_⟩
    · rw [hvalue]
      norm_num
    · exact htenth.mul hten hten' isExact_zero (by rw [zero_mul])
  · exact ⟨hstep.mono (by norm_num), htenth⟩

/-- Refining keeps the step from five on. -/
theorem refine_isCoarse {attempts : Nat} {scale scale' : Scale} (hscale : scale.IsCoarse)
    (h : refine range attempts scale = some scale') : scale'.IsCoarse := by
  induction attempts generalizing scale with
  | zero => cases h
  | succ attempts ih =>
      have hfiner : ∀ {n : Nat}, 1 ≤ n → n ≤ 10 →
          ¬ (!fits range scale.step (OfNat.ofNat n)) = true →
            (scale.step / OfNat.ofNat n).IsAtLeast 5 := by
        intro n hn hn' hfits
        rw [Bool.not_eq_true', Bool.not_eq_false] at hfits
        exact isAtLeast_of_fits hr (divisor_between hn hn') hscale.step hfits
      rw [refine] at h
      split at h
      · obtain rfl := Option.some.inj h
        exact hscale
      next htwo =>
        split at h
        · obtain rfl := Option.some.inj h
          exact ⟨hfiner (by decide) (by decide) htwo, hscale.grain⟩
        next hfive =>
          split at h
          · obtain rfl := Option.some.inj h
            exact ⟨hfiner (by decide) (by decide) hfive, hscale.grain⟩
          next hten =>
            have hgrain := hscale.grain.div ten_spec.1 (by rw [ten_spec.2]; norm_num) isExact_zero
              (by rw [zero_div])
            exact ih ⟨hfiner (by decide) (by decide) hten, hgrain⟩ h

end Scales

/-! ## Ticks in order -/

/-- Two starts, the second one a step or more above the first, moved by the same base. -/
def IsStepped (t t' : Binary64) : Prop := ∃ base step x y,
  t = x + base ∧ t' = y + base ∧ step.IsAtLeast 5 ∧ x + step ≤ y

/-- What is not above any number. -/
def IsBottomless (x : Binary64) : Prop := x = nan ∨ x = infinite true

namespace IsBottomless

variable {x y : Binary64}

theorem add (hx : IsBottomless x) (y : Binary64) : IsBottomless (x + y) := by
  rcases hx with rfl | rfl
  · exact .inl rfl
  · cases y with
    | nan => exact .inl rfl
    | finite s m => exact .inr rfl
    | infinite s =>
        cases s with
        | false => exact .inl rfl
        | true => exact .inr rfl

theorem add_left (hy : IsBottomless y) (x : Binary64) : IsBottomless (x + y) := by
  rcases hy with rfl | rfl
  · cases x with
    | nan => exact .inl rfl
    | finite s m => exact .inl rfl
    | infinite s => exact .inl rfl
  · cases x with
    | nan => exact .inl rfl
    | finite s m => exact .inr rfl
    | infinite s =>
        cases s with
        | false => exact .inl rfl
        | true => exact .inr rfl

theorem not_isAtLeast (hx : IsBottomless x) (low : Rat) : ¬ x.IsAtLeast low := by
  rcases hx with rfl | rfl
  · rintro (hinfinite | ⟨hfinite, -⟩)
    · cases hinfinite
    · cases hfinite
  · rintro (hinfinite | ⟨hfinite, -⟩)
    · cases hinfinite
    · cases hfinite

end IsBottomless

/-- A loop goes on at what is finite, or below everything. -/
theorem offset_of_reaches {last offset base : Binary64} (h : -epsilon ≤ last - offset - base) :
    offset.isFinite ∨ offset = infinite true := by
  have hreached := isAtLeast_of_le (by decide +kernel) h
  by_contra hnot
  have hopposite : IsBottomless offset.neg := by
    cases offset with
    | nan => exact .inl rfl
    | finite s m => exact absurd (.inl rfl) hnot
    | infinite s =>
        cases s with
        | false => exact .inr rfl
        | true => exact absurd (.inr rfl) hnot
  exact ((hopposite.add_left last).add base.neg).not_isAtLeast _ hreached

/-- Where the loop puts a tick for an offset, before that is moved by the base. -/
def Scale.start (scale : Scale) (offset : Binary64) : Binary64 :=
  if (offset / scale.grain).round * scale.grain < 0 then offset + scale.grain else offset

theorem upTo_succ (scale : Scale) (base last : Binary64) (attempts : Nat) (offset : Binary64)
    (found : List Binary64) :
    upTo scale base last (attempts + 1) offset found =
      if -epsilon ≤ last - offset - base then
        if scale.start offset + scale.step ≤ offset then none
        else upTo scale base last attempts (scale.start offset + scale.step)
          ((scale.start offset + base) :: found)
      else some found := rfl

/-- The starts of a loop from an offset on, in descending order. -/
structure AreStarts (scale : Scale) (offset : Binary64) (starts : List Binary64) : Prop where
  nil_of_nan : offset = nan → starts = []
  offset_le : ¬ IsBottomless offset → ∀ y ∈ starts, offset ≤ y
  stepped : starts.Pairwise fun y x => x + scale.step ≤ y

theorem areStarts_nil (scale : Scale) (offset : Binary64) : AreStarts scale offset [] :=
  ⟨fun _ => rfl, fun _ => by simp, List.Pairwise.nil⟩

section Loop

variable {scale : Scale} (hscale : scale.IsCoarse) {offset : Binary64} {starts : List Binary64}

include hscale in
/-- From a finite offset on, the loop does not go back. -/
theorem le_start (hfinite : offset.isFinite) :
    offset ≤ scale.start offset ∧ scale.start offset ≤ scale.start offset + scale.step := by
  have hle : offset ≤ scale.start offset := by
    rw [Scale.start]
    split
    · exact IsAtLeast.le_add (.inr ⟨hfinite, le_rfl⟩) hscale.grain
    · exact le_refl hfinite
  exact ⟨hle, (isAtLeast_of_le hfinite hle).le_add (hscale.step.mono (by norm_num))⟩

include hscale in
theorem AreStarts.step_finite (h : AreStarts scale (scale.start offset + scale.step) starts)
    (hfinite : offset.isFinite) : AreStarts scale offset (starts ++ [scale.start offset]) := by
  obtain ⟨hle, hnext⟩ := le_start hscale hfinite
  have hfrom := h.offset_le fun hbottomless =>
    hbottomless.not_isAtLeast _ (isAtLeast_of_le hfinite (le_trans hle hnext))
  constructor
  case nil_of_nan =>
    rintro rfl
    cases hfinite
  case offset_le =>
    intro _
    rw [List.forall_mem_append, List.forall_mem_singleton]
    exact ⟨fun y hy => le_trans (le_trans hle hnext) (hfrom y hy), hle⟩
  case stepped =>
    refine List.pairwise_append.mpr ⟨h.stepped, List.pairwise_singleton _ _, fun y hy => ?_⟩
    rw [List.forall_mem_singleton]
    exact hfrom y hy

/-- Below everything, there is no second start. -/
theorem AreStarts.step_bottomless
    (h : AreStarts scale (scale.start (infinite true) + scale.step) starts)
    (hgrows : ¬ scale.start (infinite true) + scale.step ≤ infinite true) :
    AreStarts scale (infinite true) (starts ++ [scale.start (infinite true)]) := by
  have hstart : IsBottomless (scale.start (infinite true)) := by
    rw [Scale.start]
    split
    · exact IsBottomless.add (.inr rfl) _
    · exact .inr rfl
  rcases hstart.add scale.step with hnext | hnext
  · rw [h.nil_of_nan hnext]
    exact ⟨nofun, fun hnot => absurd (.inr rfl) hnot, List.pairwise_singleton _ _⟩
  · rw [hnext] at hgrows
    exact absurd (infinite_le_self true) hgrows

include hscale in
/-- The ticks of a loop are its starts, moved by the base. -/
theorem upTo_spec {base last : Binary64} {attempts : Nat} {found ticks : List Binary64}
    (h : upTo scale base last attempts offset found = some ticks) :
    ∃ starts, ticks = starts.map (· + base) ++ found ∧ AreStarts scale offset starts := by
  induction attempts generalizing offset found with
  | zero => cases h
  | succ attempts ih =>
      rw [upTo_succ] at h
      split at h
      next hreaches =>
        split at h
        · cases h
        next hgrows =>
          obtain ⟨starts, rfl, hstarts⟩ := ih h
          refine ⟨starts ++ [scale.start offset], by simp, ?_⟩
          rcases offset_of_reaches hreaches with hfinite | rfl
          · exact hstarts.step_finite hscale hfinite
          · exact hstarts.step_bottomless hgrows
      next =>
        obtain rfl := Option.some.inj h
        exact ⟨[], rfl, areStarts_nil scale offset⟩

end Loop

/-- The ticks of a wide range are a step or more apart, before they are moved by the base. -/
theorem ofRange_isStepped {range : Range} (hr : IsWide range) {ticks : List Binary64}
    (h : ofRange range = some ticks) : ticks.Pairwise IsStepped := by
  rw [ofRange] at h
  split at h
  · obtain rfl := Option.some.inj h
    exact List.pairwise_singleton _ _
  · obtain ⟨scale, hscale, h⟩ := Option.bind_eq_some_iff.mp h
    obtain ⟨found, hfound, h⟩ := Option.bind_eq_some_iff.mp h
    obtain rfl := Option.some.inj h
    have hcoarse := refine_isCoarse hr (coarse_isCoarse hr) hscale
    obtain ⟨starts, rfl, hstarts⟩ := upTo_spec hcoarse hfound
    rw [List.append_nil, List.pairwise_reverse, List.pairwise_map]
    exact hstarts.stepped.imp fun hle => ⟨_, _, _, _, rfl, rfl, hcoarse.step, hle⟩

/-! ## How far ticks are apart -/

section Apart

variable {x y base step t t' : Binary64}

theorem isFinite_of_add (h : (x + y).isFinite) : x.isFinite ∧ y.isFinite := by
  cases x with
  | nan => cases h
  | finite s m =>
      cases y with
      | nan => cases h
      | finite t n => exact ⟨rfl, rfl⟩
      | infinite t => cases h
  | infinite s =>
      cases y with
      | nan => cases h
      | finite t n => cases h
      | infinite t => cases s <;> cases t <;> cases h

/-- A step from five on is lost in the sum as a whole, or is kept but for its half. -/
theorem starts_apart (hx : x.isFinite) (hy : y.isFinite) (hstep : step.IsAtLeast 5)
    (h : x + step ≤ y) : x.toRat = y.toRat ∨ x.toRat + 5 / 2 < y.toRat := by
  have hgrows : x ≤ x + step := IsAtLeast.le_add (.inr ⟨hx, le_rfl⟩) (hstep.mono (by norm_num))
  obtain ⟨-, hfinite⟩ := isFinite_of_add (isFinite_of_le_of_le hx hy hgrows h)
  obtain hinfinite | ⟨-, hfive⟩ := hstep
  · rw [hinfinite] at hfinite
    cases hfinite
  obtain ⟨s, hs⟩ := add_eq_nearest hx hfinite
  have hle : nearest s (x.toRat + 5) ≤ y := by
    rw [hs] at h
    exact le_trans (nearest_mono s s (by linarith)) h
  have hxy := (le_iff_toRat hx hy).mp (le_trans hgrows h)
  rcases le_or_gt |x.toRat| (2 ^ 54 + 8) with hsmall | hlarge
  · obtain ⟨hlow, hhigh⟩ := abs_le.mp hsmall
    have hsum : |x.toRat + 5| ≤ 2 ^ 54 + 13 := abs_le.mpr ⟨by linarith, by linarith⟩
    obtain ⟨hfinite', hleast, -⟩ := between_of_eq_nearest ⟨s, rfl⟩ hsum (by norm_num)
    rw [le_iff_toRat hfinite' hy] at hle
    norm_num at hleast
    exact .inr (by linarith)
  · -- from here on there are only multiples of four
    obtain ⟨k, hk⟩ := exists_eq_mul_two_pow (j := 2) hx (by norm_num at hlarge ⊢; linarith)
    rcases le_or_gt (2 ^ 54) |y.toRat| with hlarge' | hsmall
    · obtain ⟨l, hl⟩ := exists_eq_mul_two_pow (j := 2) hy hlarge'
      rcases eq_or_ne k l with rfl | hne
      · exact .inl (hk.trans hl.symm)
      · rw [hk, hl, mul_le_mul_iff_left₀ (by norm_num)] at hxy
        have hlt : k + 1 ≤ l := by
          have hle' : k ≤ l := by exact_mod_cast hxy
          omega
        have hcast : (k : Rat) + 1 ≤ l := by exact_mod_cast hlt
        right
        rw [hk, hl]
        norm_num
        linarith
    · obtain ⟨hlow, hhigh⟩ := abs_lt.mp hsmall
      right
      rcases lt_abs.mp hlarge with habove | hbelow
      · linarith
      · linarith

/-- What a small sum is rounded from is less than one and a half times the rounding of one away. -/
theorem sum_near (hx : x.isFinite) (hbase : base.isFinite) (hfinite : (x + base).isFinite)
    (hsmall : |(x + base).toRat| ≤ 2 ^ 52 + 1) :
    |(x + base).toRat - (x.toRat + base.toRat)| ≤ 3 / 5 := by
  obtain ⟨s, hs⟩ := add_eq_nearest hx hbase
  rw [hs] at hfinite hsmall ⊢
  have hnear := abs_nearest_sub_le s hfinite
  have htriangle := abs_sub_abs_le_abs_sub (x.toRat + base.toRat)
    (nearest s (x.toRat + base.toRat)).toRat
  rw [abs_sub_comm] at htriangle
  norm_num at hsmall hnear htriangle ⊢
  linarith

/-- Ticks that are small enough are more than one apart, or the same. -/
theorem IsStepped.apart (h : IsStepped t t') (ht : t.isFinite) (ht' : t'.isFinite)
    (hsmall : |t.toRat| ≤ 2 ^ 52 + 1) (hsmall' : |t'.toRat| ≤ 2 ^ 52 + 1) :
    t.toRat = t'.toRat ∨ t.toRat + 1 < t'.toRat := by
  obtain ⟨base, step, x, y, rfl, rfl, hstep, hle⟩ := h
  obtain ⟨hx, hbase⟩ := isFinite_of_add ht
  obtain ⟨hy, -⟩ := isFinite_of_add ht'
  obtain ⟨hlow, hhigh⟩ := abs_le.mp (sum_near hx hbase ht hsmall)
  obtain ⟨hlow', hhigh'⟩ := abs_le.mp (sum_near hy hbase ht' hsmall')
  rcases starts_apart hx hy hstep hle with heq | hapart
  · obtain ⟨s, hs⟩ := add_eq_nearest hx hbase
    obtain ⟨s', hs'⟩ := add_eq_nearest hy hbase
    rw [hs, hs', heq]
    exact .inl (toRat_nearest_congr s s' _)
  · exact .inr (by linarith)

end Apart

end Ticks

end TimingChart
