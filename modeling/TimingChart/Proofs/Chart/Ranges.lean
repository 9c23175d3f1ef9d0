import TimingChart.Chart.Series
import TimingChart.Proofs.Binary64.Operations

/-! # Ranges hold what is drawn

The range of an axis has finite bounds, with all coordinates of the points that can be drawn between
them, unless the span of the coordinates is too large for a double. -/

namespace TimingChart

/-! ## Extremes -/

section Extremes

variable {α : Type} {before : α → α → Prop}

/-- The bound is one of the values, and none of them comes before it. -/
structure IsExtreme (before : α → α → Prop) (values : List α) (bound : α) : Prop where
  mem : bound ∈ values
  first : ∀ v ∈ values, ¬ before v bound

/-- Taking in one more value keeps the bound extreme. -/
theorem IsExtreme.concat [DecidableRel before] {values : List α} {bound : α}
    (h : IsExtreme before values bound) (hirrefl : ∀ a, ¬ before a a)
    (htrans : ∀ a b c, before a b → before b c → before a c) (value : α) :
    IsExtreme before (values ++ [value]) (if before value bound then value else bound) := by
  split
  next hbefore =>
    refine ⟨List.mem_append_right _ (List.mem_singleton_self value), ?_⟩
    intro v hv
    rcases List.mem_append.mp hv with hold | hnew
    · exact fun hless => h.first v hold (htrans v value bound hless hbefore)
    · obtain rfl := List.mem_singleton.mp hnew
      exact hirrefl v
  next hnot =>
    refine ⟨List.mem_append_left _ h.mem, ?_⟩
    intro v hv
    rcases List.mem_append.mp hv with hold | hnew
    · exact h.first v hold
    · obtain rfl := List.mem_singleton.mp hnew
      exact hnot

theorem minAndMax_eq_none_iff [LT α] [DecidableLT α] {values : List α} :
    minAndMax values = none ↔ values = [] := by
  cases values <;> simp [minAndMax]

variable [LT α] [DecidableLT α] (hirrefl : ∀ a : α, ¬ a < a)
  (htrans : ∀ a b c : α, a < b → b < c → a < c)

/-- The bounds are a least and a greatest one of the values. -/
structure AreExtremes (values : List α) (bounds : α × α) : Prop where
  low : IsExtreme (fun a b => a < b) values bounds.1
  high : IsExtreme (fun a b => b < a) values bounds.2

include hirrefl htrans

theorem AreExtremes.foldl_widen {values : List α} {bounds : α × α} (h : AreExtremes values bounds)
    (rest : List α) : AreExtremes (values ++ rest) (rest.foldl widen bounds) := by
  induction rest generalizing values bounds with
  | nil =>
      rw [List.append_nil]
      exact h
  | cons value rest ih =>
      have hlow := h.low.concat hirrefl htrans value
      have hhigh := h.high.concat hirrefl (fun a b c hab hbc => htrans c b a hbc hab) value
      rw [List.append_cons]
      exact ih ⟨hlow, hhigh⟩

/-- One pass finds the extremes. -/
theorem minAndMax_spec {values : List α} {bounds : α × α} (h : minAndMax values = some bounds) :
    AreExtremes values bounds := by
  cases values with
  | nil => cases h
  | cons value rest =>
      have hfirst : AreExtremes [value] (value, value) := by
        constructor <;> constructor <;> simp [hirrefl]
      obtain rfl := Option.some.inj h
      exact hfirst.foldl_widen hirrefl htrans rest

end Extremes

/-! ## Margins -/

namespace Range

open Binary64

attribute [local irreducible] Binary64.ofInt

/-- The bounds are doubles in order. -/
structure IsProper (r : Range) : Prop where
  lowFinite : r.low.isFinite
  highFinite : r.high.isFinite
  ordered : r.low ≤ r.high

theorem default_isProper : default.IsProper := by
  refine ⟨zero_spec.1, one_spec.1, (le_iff_toRat zero_spec.1 one_spec.1).mpr ?_⟩
  rw [zero_spec.2, one_spec.2]
  decide

section Padded

variable {low high : Binary64} (hlow : low.isFinite) (hhigh : high.isFinite)
include hlow hhigh

/-- A tenth of a finite span is finite and not negative. -/
theorem margin_spec (hle : low ≤ high) (hspan : (high - low).isFinite) :
    ((high - low) / 10).isFinite ∧ 0 ≤ ((high - low) / 10).toRat := by
  have hnonneg : 0 ≤ (high - low).toRat := by
    obtain ⟨s, hs⟩ := sub_eq_nearest hhigh hlow
    have hexact := sub_nonneg.mpr ((le_iff_toRat hlow hhigh).mp hle)
    have hrounded := le_nearest s zero_spec.1 (zero_spec.2.trans_le hexact)
    rwa [← hs, le_iff_toRat zero_spec.1 hspan, zero_spec.2] at hrounded
  obtain ⟨s, hs⟩ := div_eq_nearest hspan ten_spec.1 (by rw [ten_spec.2]; decide)
  have hlow : (0 : Binary64).toRat ≤ (high - low).toRat / 10 := by
    rw [zero_spec.2]
    exact div_nonneg hnonneg (by norm_num)
  have hhigh : (high - low).toRat / 10 ≤ (high - low).toRat :=
    div_le_self hnonneg (by norm_num)
  rw [ten_spec.2] at hs
  have hfinite : ((high - low) / 10).isFinite := by
    rw [hs]
    exact isFinite_nearest s zero_spec.1 hspan hlow hhigh
  have hrounded := le_nearest s zero_spec.1 hlow
  rw [← hs, le_iff_toRat zero_spec.1 hfinite, zero_spec.2] at hrounded
  exact ⟨hfinite, hrounded⟩

/-- A finite span lies in its padded range, which is not empty unless the margin of one vanishes. -/
theorem padded_spec (hle : low ≤ high) (hspan : (high - low).isFinite) :
    (padded (some (low, high))).low.isFinite ∧ (padded (some (low, high))).high.isFinite ∧
      (padded (some (low, high))).low ≤ low ∧ high ≤ (padded (some (low, high))).high ∧
      (low < high ∨ |low.toRat| ≤ 2 ^ 53 →
        (padded (some (low, high))).low < (padded (some (low, high))).high) := by
  have hone : 0 ≤ (1 : Binary64).toRat := by
    rw [one_spec.2]
    decide
  rw [padded, hspan, Bool.not_true, if_neg Bool.false_ne_true]
  by_cases hlt : low < high
  · obtain ⟨hmargin, hnonneg⟩ := margin_spec hlow hhigh hle hspan
    rw [if_pos hlt]
    dsimp only
    split
    next hwide =>
      rw [Bool.and_eq_true] at hwide
      have hdown := sub_le hlow hmargin hnonneg
      have hup := le_add hhigh hmargin hnonneg
      exact ⟨hwide.1, hwide.2, hdown, hup, fun _ =>
        lt_of_le_of_lt hdown (lt_of_lt_of_le hlt hup)⟩
    next hwide => exact ⟨hlow, hhigh, le_refl hlow, le_refl hhigh, fun _ => hlt⟩
  · have hge := (not_lt_iff_le hlow hhigh).mp hlt
    rw [if_neg hlt]
    exact ⟨isFinite_sub_one hlow, isFinite_add_one hlow, sub_le hlow one_spec.1 hone,
      le_trans hge (le_add hlow one_spec.1 hone),
      fun h => sub_one_lt_add_one hlow (h.resolve_left hlt)⟩

end Padded

/-! ## Coordinates and their range -/

/-- How the range of an axis relates to the coordinates on it. -/
structure Shows (r : Range) (values : List Binary64) : Prop where
  /-- The bounds are always finite and in order. -/
  proper : r.IsProper
  default_of_nil : values = [] → r = ⟨0, 1⟩
  exists_extremes : values ≠ [] → ∃ bounds, AreExtremes values bounds
  default_of_overflow : ∀ bounds, AreExtremes values bounds →
    ¬ (bounds.2 - bounds.1).isFinite → r = ⟨0, 1⟩
  holds : ∀ bounds, AreExtremes values bounds → (bounds.2 - bounds.1).isFinite →
    ∀ v ∈ values, r.low ≤ v ∧ v ≤ r.high
  /-- The range is not a single point, unless all values are the same large one. -/
  low_lt_high : ∀ bounds, AreExtremes values bounds → (bounds.2 - bounds.1).isFinite →
    (∃ v ∈ values, ∃ w ∈ values, v < w) ∨ (∃ v ∈ values, |v.toRat| ≤ 2 ^ 53) → r.low < r.high

theorem minAndMax_extremes {values : List Binary64} {bounds : Binary64 × Binary64}
    (h : minAndMax values = some bounds) : AreExtremes values bounds :=
  minAndMax_spec lt_irrefl (fun _ _ _ => lt_trans) h

section Finite

variable {values : List Binary64} (hfinite : ∀ v ∈ values, v.isFinite)
include hfinite

/-- All extremes of finite values have the same span. -/
theorem span_congr {bounds bounds' : Binary64 × Binary64} (h : AreExtremes values bounds)
    (h' : AreExtremes values bounds') :
    (bounds.2 - bounds.1).isFinite = (bounds'.2 - bounds'.1).isFinite := by
  have heq : ∀ {v w : Binary64}, v ∈ values → w ∈ values → ¬ v < w → ¬ w < v →
      v.toRat = w.toRat := by
    intro v w hv hw hnot hnot'
    have hge := (not_lt_iff_le (hfinite v hv) (hfinite w hw)).mp hnot
    have hle := (not_lt_iff_le (hfinite w hw) (hfinite v hv)).mp hnot'
    exact toRat_eq_of_le (hfinite v hv) (hfinite w hw) hle hge
  have hlow := heq h.low.mem h'.low.mem (h'.low.first _ h.low.mem) (h.low.first _ h'.low.mem)
  have hhigh := heq h.high.mem h'.high.mem (h.high.first _ h'.high.mem) (h'.high.first _ h.high.mem)
  obtain ⟨s, hs⟩ := sub_eq_nearest (hfinite _ h.high.mem) (hfinite _ h.low.mem)
  obtain ⟨t, ht⟩ := sub_eq_nearest (hfinite _ h'.high.mem) (hfinite _ h'.low.mem)
  rw [hs, ht, hlow, hhigh]
  exact isFinite_nearest_congr s t _

/-- Where the span is too large for a double, the default range is all there is to show. -/
theorem default_shows {bounds : Binary64 × Binary64} (h : AreExtremes values bounds)
    (hoverflow : ¬ (bounds.2 - bounds.1).isFinite) : default.Shows values := by
  have hspan : ∀ bounds', AreExtremes values bounds' → ¬ (bounds'.2 - bounds'.1).isFinite := by
    intro bounds' h'
    rw [span_congr hfinite h' h]
    exact hoverflow
  constructor
  case proper => exact default_isProper
  case default_of_nil => exact fun _ => rfl
  case exists_extremes => exact fun _ => ⟨bounds, h⟩
  case default_of_overflow => exact fun _ _ _ => rfl
  case holds => exact fun _ h' hfits => absurd hfits (hspan _ h')
  case low_lt_high => exact fun _ h' hfits => absurd hfits (hspan _ h')

theorem padded_shows {bounds : Binary64 × Binary64} (h : AreExtremes values bounds)
    (hfits : (bounds.2 - bounds.1).isFinite) : (padded (some bounds)).Shows values := by
  have hlow := hfinite _ h.low.mem
  have hhigh := hfinite _ h.high.mem
  have hle : ∀ v ∈ values, bounds.1 ≤ v ∧ v ≤ bounds.2 := by
    intro v hv
    exact ⟨(not_lt_iff_le (hfinite v hv) hlow).mp (h.low.first v hv),
      (not_lt_iff_le hhigh (hfinite v hv)).mp (h.high.first v hv)⟩
  have hordered := (hle _ h.low.mem).2
  obtain ⟨hfinite', hfinite'', hdown, hup, hwide⟩ := padded_spec hlow hhigh hordered hfits
  constructor
  case proper => exact ⟨hfinite', hfinite'', le_trans hdown (le_trans hordered hup)⟩
  case default_of_nil =>
    rintro rfl
    exact absurd h.low.mem List.not_mem_nil
  case exists_extremes => exact fun _ => ⟨bounds, h⟩
  case default_of_overflow =>
    intro _ h' hoverflow
    rw [span_congr hfinite h' h] at hoverflow
    exact absurd hfits hoverflow
  case holds =>
    intro _ _ _ v hv
    exact ⟨le_trans hdown (hle v hv).1, le_trans (hle v hv).2 hup⟩
  case low_lt_high =>
    intro _ _ _ hvalues
    apply hwide
    rcases hvalues with ⟨v, hv, w, hw, hlt⟩ | ⟨v, hv, hsmall⟩
    · exact .inl (lt_of_le_of_lt (hle v hv).1 (lt_of_lt_of_le hlt (hle w hw).2))
    · by_cases hlt : bounds.1 < bounds.2
      · exact .inl hlt
      · -- all values are equal
        have hge := (not_lt_iff_le hlow hhigh).mp hlt
        have habove := le_trans (hle v hv).2 hge
        rw [← toRat_eq_of_le hlow (hfinite v hv) (hle v hv).1 habove] at hsmall
        exact .inr hsmall

/-- The range of finite values shows them. -/
theorem ofValues_shows : (ofValues values).Shows values := by
  rw [ofValues]
  cases hbounds : minAndMax values with
  | none =>
      obtain rfl := minAndMax_eq_none_iff.mp hbounds
      constructor
      case proper => exact default_isProper
      case default_of_nil => exact fun _ => rfl
      case exists_extremes => exact fun hne => absurd rfl hne
      case default_of_overflow => exact fun _ _ _ => rfl
      case holds => exact fun _ h => absurd h.low.mem List.not_mem_nil
      case low_lt_high => exact fun _ h => absurd h.low.mem List.not_mem_nil
  | some bounds =>
      have hextremes := minAndMax_extremes hbounds
      cases hfits : (bounds.2 - bounds.1).isFinite with
      | true => exact padded_shows hfinite hextremes hfits
      | false =>
          have hdefault : padded (some bounds) = default := by
            rw [padded, hfits, Bool.not_false, if_pos rfl]
          rw [hdefault]
          exact default_shows hfinite hextremes (by rw [hfits]; exact Bool.false_ne_true)

end Finite

end Range

namespace ChartData

variable (d : ChartData)

theorem isFinite_of_mem_drawable {d : ChartData} {p : DataPoint} (hp : p ∈ d.drawable) :
    p.x.isFinite ∧ p.y.isFinite := by
  have hdrawable := (List.mem_filter.mp hp).2
  rwa [DataPoint.isDrawable, Bool.and_eq_true] at hdrawable

theorem xRange_shows : d.xRange.Shows (d.drawable.map DataPoint.x) := by
  apply Range.ofValues_shows
  intro v hv
  obtain ⟨p, hp, rfl⟩ := List.mem_map.mp hv
  exact (isFinite_of_mem_drawable hp).1

theorem yRange_shows : d.yRange.Shows (d.drawable.map DataPoint.y) := by
  apply Range.ofValues_shows
  intro v hv
  obtain ⟨p, hp, rfl⟩ := List.mem_map.mp hv
  exact (isFinite_of_mem_drawable hp).2

/-- The ranges of a chart show the points of all its series, but for those with a coordinate that is
not finite. -/
theorem ranges_show :
    d.xRange.Shows (((d.series.flatMap Series.points).filter fun p =>
      p.x.isFinite && p.y.isFinite).map DataPoint.x) ∧
    d.yRange.Shows (((d.series.flatMap Series.points).filter fun p =>
      p.x.isFinite && p.y.isFinite).map DataPoint.y) :=
  ⟨d.xRange_shows, d.yRange_shows⟩

/-- Red series with these points. -/
def scatter (points : List (List DataPoint)) : ChartData :=
  ⟨"scatter", "", points.map fun points => ⟨"points", ⟨255, 0, 0⟩, points⟩⟩

/-- Three series, with gaps beyond what is drawn in two of them. -/
def scatterWithGaps : ChartData :=
  scatter [[⟨100, .nan⟩, ⟨3, 2⟩], [⟨.nan, 0⟩, ⟨1, .infinite true⟩, ⟨4, 7⟩], [⟨5, 6⟩]]

def scatterOfGaps : ChartData := scatter [[⟨100, .nan⟩], [⟨.nan, 0⟩, ⟨1, .infinite true⟩]]

/-- From the least to the greatest double, which is too far for a double. -/
def widestScatter : ChartData :=
  scatter [[⟨.ofBits 0xFFEFFFFFFFFFFFFF, 2⟩], [⟨.ofBits 0x7FEFFFFFFFFFFFFF, 7⟩]]

theorem ranges_show_scatter :
    (scatterWithGaps.xRange.low ≤ 3 ∧ 5 ≤ scatterWithGaps.xRange.high ∧
      scatterWithGaps.yRange.low ≤ 2 ∧ 7 ≤ scatterWithGaps.yRange.high) ∧
    (scatterOfGaps.xRange = ⟨0, 1⟩ ∧ scatterOfGaps.yRange = ⟨0, 1⟩) ∧
    widestScatter.xRange = ⟨0, 1⟩ ∧ widestScatter.yRange.low < widestScatter.yRange.high := by
  refine ⟨?_, ?_, ?_⟩
  · obtain ⟨hx, hy⟩ := ranges_show scatterWithGaps
    have hholdsX := hx.holds (3, 5) (Range.minAndMax_extremes (by decide +kernel))
      (by decide +kernel)
    have hholdsY := hy.holds (2, 7) (Range.minAndMax_extremes (by decide +kernel))
      (by decide +kernel)
    exact ⟨(hholdsX 3 (by decide +kernel)).1, (hholdsX 5 (by decide +kernel)).2,
      (hholdsY 2 (by decide +kernel)).1, (hholdsY 7 (by decide +kernel)).2⟩
  · obtain ⟨hx, hy⟩ := ranges_show scatterOfGaps
    exact ⟨hx.default_of_nil (by decide +kernel), hy.default_of_nil (by decide +kernel)⟩
  · obtain ⟨hx, hy⟩ := ranges_show widestScatter
    have hoverflow := hx.default_of_overflow
      (Binary64.ofBits 0xFFEFFFFFFFFFFFFF, Binary64.ofBits 0x7FEFFFFFFFFFFFFF)
      (Range.minAndMax_extremes (by decide +kernel)) (by decide +kernel)
    have hproper := hy.low_lt_high (2, 7) (Range.minAndMax_extremes (by decide +kernel))
      (by decide +kernel)
    refine ⟨hoverflow, hproper (.inl ⟨2, ?_, 7, ?_, ?_⟩)⟩
    all_goals decide +kernel

end ChartData

end TimingChart
