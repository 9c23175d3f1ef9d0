import TimingChart.Proofs.Chart.TickSteps
import TimingChart.Proofs.Chart.Vertices
import TimingChart.Proofs.Decimal.WholeNumbers

/-! # What the labels of ticks tell

On the vertical axis a label has all digits of its tick, so it belongs to no other tick. On the
horizontal axis labels are whole numbers. They tell ticks apart unless these are rounded to the same
number, and that does not happen where the values that are shown are far enough apart. -/

namespace TimingChart

namespace Binary64

variable {x y : Binary64}

/-- A double is its value and its sign. -/
theorem eq_of_toRat_eq (hx : x.isFinite) (hy : y.isFinite) (hnegative : x.negative = y.negative)
    (h : x.toRat = y.toRat) : x = y := by
  cases x with
  | nan => cases hx
  | infinite s => cases hx
  | finite s m =>
      cases y with
      | nan => cases hy
      | infinite t => cases hy
      | finite t n =>
          obtain rfl : s = t := hnegative
          have hunits : (finite s m).units = (finite s n).units := by
            have hle := (le_iff_toRat hx hy).mpr h.le
            have hge := (le_iff_toRat hy hx).mpr h.ge
            exact le_antisymm ((le_iff_units hx hy).mp hle) ((le_iff_units hy hx).mp hge)
          have hsame : m.units = n.units := by
            rw [← natAbs_units s m, ← natAbs_units s n, hunits]
          rw [Magnitude.units_injective hsame]

/-- Whole numbers have labels of their own, and so have doubles that are more than one apart. -/
theorem wholeText_ne (hne : x ≠ y)
    (h : (∃ m n : Int, x.toRat = m ∧ y.toRat = n) ∨ 1 < |x.toRat - y.toRat|) :
    x.wholeText ≠ y.wholeText := by
  intro htext
  rcases wholeText_eq_iff.mp htext with heq | ⟨hx, hy, hnegative, n, hn, hn'⟩
  · exact hne heq
  rcases h with ⟨k, l, hk, hl⟩ | hapart
  · rw [hk] at hn
    rw [hl] at hn'
    have hsame : k = l :=
      ((RoundsTo.intCast k).unique hn).trans (hn'.unique (RoundsTo.intCast l))
    exact hne (eq_of_toRat_eq hx hy hnegative (by rw [hk, hl, hsame]))
  · exact absurd (hn.dist_le_one hn') (not_le.mpr hapart)

/-- The blanks in front of a number are no part of it. -/
theorem padLeft_shortText_injective (width : Nat) :
    Function.Injective fun x : Binary64 => padLeft width x.shortText := by
  intro x y h
  have hdrop : ∀ x : Binary64, (padLeft width x.shortText).dropWhile (· = ' ') = x.shortText := by
    intro x
    rw [padLeft, List.dropWhile_append_of_pos]
    · rw [List.dropWhile_eq_self_iff]
      intro hpos
      have hplain := isPlain_of_mem_shortText (List.getElem_mem hpos)
      rintro hblank
      rw [of_decide_eq_true hblank] at hplain
      exact absurd hplain (by decide)
    · intro c hc
      exact decide_eq_true (List.eq_of_mem_replicate hc)
  apply shortText_injective
  rw [← hdrop x, ← hdrop y]
  exact congrArg _ h

end Binary64

/-! ## Ticks that are steps apart -/

namespace Ticks

open Binary64

/-- Steps from five on are seen when ticks are rounded to whole numbers. -/
theorem IsStepped.eq_of_wholeText {t t' : Binary64} (h : IsStepped t t')
    (htext : t.wholeText = t'.wholeText) : t = t' := by
  rcases wholeText_eq_iff.mp htext with heq | ⟨ht, ht', hnegative, n, hn, hn'⟩
  · exact heq
  by_contra hne
  have hvalue : t.toRat ≠ t'.toRat := fun heq => hne (eq_of_toRat_eq ht ht' hnegative heq)
  have hdistance := abs_le.mp (hn.dist_le_one hn')
  have hnear := abs_sub_abs_le_abs_sub t.toRat t'.toRat
  have hnear' := abs_sub_abs_le_abs_sub t'.toRat t.toRat
  rw [abs_sub_comm] at hnear'
  have hdist := hn.dist_le_one hn'
  -- one of them is no whole number, so none of them is large
  have hsmall : |t.toRat| < 2 ^ 52 ∨ |t'.toRat| < 2 ^ 52 := by
    by_contra hlarge
    obtain ⟨hlarge, hlarge'⟩ := not_or.mp hlarge
    rw [toRat_eq_of_roundsTo ht (not_lt.mp hlarge) hn,
      toRat_eq_of_roundsTo ht' (not_lt.mp hlarge') hn'] at hvalue
    exact hvalue rfl
  have happart := h.apart ht ht' (by rcases hsmall with h | h <;> linarith)
    (by rcases hsmall with h | h <;> linarith)
  rcases happart with heq | hapart
  · exact hvalue heq
  · linarith [hdistance.1]

/-- No two ticks of a wide range have the same whole number for a label. -/
theorem eq_of_wholeText {range : Range} (hr : IsWide range) {ticks : List Binary64}
    (h : ofRange range = some ticks) {t t' : Binary64} (ht : t ∈ ticks) (ht' : t' ∈ ticks)
    (htext : t.wholeText = t'.wholeText) : t = t' := by
  have hpairs : ticks.Pairwise fun t t' => t.wholeText = t'.wholeText → t = t' :=
    (ofRange_isStepped hr h).imp IsStepped.eq_of_wholeText
  exact hpairs.forall_of_forall_of_flip (fun _ _ _ => rfl)
    (hpairs.imp fun h htext => (h htext.symm).symm) ht ht' htext

end Ticks

/-! ## Wide ranges -/

namespace Range

open Binary64

/-- A margin leaves bounds of up to `2 ^ 53` within `2 ^ 54`. -/
theorem padded_small {low high : Binary64} (hlow : low.isFinite) (hhigh : high.isFinite)
    (hsmall : |low.toRat| ≤ 2 ^ 53) (hsmall' : |high.toRat| ≤ 2 ^ 53) (hlt : low < high) :
    |(padded (some (low, high))).low.toRat| ≤ 2 ^ 54 ∧
      |(padded (some (low, high))).high.toRat| ≤ 2 ^ 54 := by
  obtain ⟨hleast, hmost⟩ := abs_le.mp hsmall
  obtain ⟨hleast', hmost'⟩ := abs_le.mp hsmall'
  have hle := (lt_iff_toRat hlow hhigh).mp hlt
  have hdifference : |high.toRat - low.toRat| ≤ 2 ^ 54 := abs_le.mpr ⟨by linarith, by linarith⟩
  obtain ⟨hspan, hspanLow, hspanHigh⟩ :=
    between_of_eq_nearest (sub_eq_nearest hhigh hlow) hdifference (by norm_num)
  obtain ⟨hten, hvalue⟩ := ten_spec
  norm_num at hspanLow hspanHigh
  have hquotient : |(high - low).toRat / (10 : Binary64).toRat| ≤ 2 ^ 51 := by
    rw [hvalue]
    exact abs_le.mpr ⟨by linarith, by linarith⟩
  obtain ⟨hmargin, hmarginLow, hmarginHigh⟩ := between_of_eq_nearest
    (div_eq_nearest hspan hten (by rw [hvalue]; norm_num)) hquotient (by norm_num)
  rw [hvalue] at hmarginLow hmarginHigh
  norm_num at hmarginLow hmarginHigh
  rw [padded, hspan, Bool.not_true, if_neg Bool.false_ne_true, if_pos hlt]
  dsimp only
  split
  · have hdown : |low.toRat - ((high - low) / 10).toRat| ≤ 2 ^ 53 + 2 ^ 52 :=
      abs_le.mpr ⟨by linarith, by linarith⟩
    have hup : |high.toRat + ((high - low) / 10).toRat| ≤ 2 ^ 53 + 2 ^ 52 :=
      abs_le.mpr ⟨by linarith, by linarith⟩
    obtain ⟨-, hlowLow, hlowHigh⟩ :=
      between_of_eq_nearest (sub_eq_nearest hlow hmargin) hdown (by norm_num)
    obtain ⟨-, hhighLow, hhighHigh⟩ :=
      between_of_eq_nearest (add_eq_nearest hhigh hmargin) hup (by norm_num)
    norm_num at hlowLow hlowHigh hhighLow hhighHigh
    exact ⟨abs_le.mpr ⟨by linarith, by linarith⟩, abs_le.mpr ⟨by linarith, by linarith⟩⟩
  · exact ⟨hsmall.trans (by norm_num), hsmall'.trans (by norm_num)⟩

/-- The values are not too far from zero, and two of them are a hundred apart, or more. -/
structure AreWide (values : List Binary64) : Prop where
  small : ∀ v ∈ values, |v.toRat| ≤ 2 ^ 53
  apart : ∃ v ∈ values, ∃ w ∈ values, v.toRat + 100 ≤ w.toRat

theorem AreWide.isWide {values : List Binary64} (h : AreWide values)
    (hfinite : ∀ v ∈ values, v.isFinite) : Ticks.IsWide (ofValues values) := by
  obtain ⟨v, hv, w, hw, hvw⟩ := h.apart
  rw [ofValues]
  cases hbounds : minAndMax values with
  | none =>
      rw [minAndMax_eq_none_iff.mp hbounds] at hv
      cases hv
  | some bounds =>
      obtain ⟨low, high⟩ := bounds
      have hextremes := minAndMax_extremes hbounds
      have hlow := hfinite _ hextremes.low.mem
      have hhigh := hfinite _ hextremes.high.mem
      have hleast := (not_lt_iff_le (hfinite v hv) hlow).mp (hextremes.low.first v hv)
      have hmost := (not_lt_iff_le hhigh (hfinite w hw)).mp (hextremes.high.first w hw)
      rw [le_iff_toRat hlow (hfinite v hv)] at hleast
      rw [le_iff_toRat (hfinite w hw) hhigh] at hmost
      have hlt : low < high := by
        rw [lt_iff_toRat hlow hhigh]
        linarith
      have hsmall := h.small _ hextremes.low.mem
      have hsmall' := h.small _ hextremes.high.mem
      have hdifference : |high.toRat - low.toRat| ≤ 2 ^ 100 :=
        (abs_sub _ _).trans (by linarith)
      have hspan := (near_of_eq_nearest (sub_eq_nearest hhigh hlow) hdifference).1
      have hordered := (le_iff_toRat hlow hhigh).mpr (by linarith)
      obtain ⟨hlow', hhigh', hdown, hup, -⟩ := padded_spec hlow hhigh hordered hspan
      rw [le_iff_toRat hlow' hlow] at hdown
      rw [le_iff_toRat hhigh hhigh'] at hup
      obtain ⟨hlowSmall, hhighSmall⟩ := padded_small hlow hhigh hsmall hsmall' hlt
      exact ⟨hlow', hhigh', hlowSmall, hhighSmall, by linarith⟩

end Range

/-! ## Labels in a document -/

/-- Position and content of a shape, if it is a text of this role. -/
def Shape.labelOf? (role : TextRole) : Shape → Option (Pixel × String)
  | .text r position content => if r = role then some (position, content) else none
  | _ => none

/-- The texts of one role with their positions, from back to front. -/
def Drawing.labels (d : Drawing) (role : TextRole) : List (Pixel × String) :=
  d.shapes.filterMap (Shape.labelOf? role)

/-- No text stands at two places. -/
def Drawing.TellsApart (d : Drawing) (role : TextRole) : Prop :=
  ∀ label ∈ d.labels role, ∀ label' ∈ d.labels role, label.2 = label'.2 → label.1 = label'.1

namespace Frame

variable (f : Frame)

/-- The ticks inside, which have labels. -/
def labelledRows : List Binary64 :=
  f.yTicks.filter fun tick => f.plot.top ≤ f.row tick ∧ f.row tick ≤ f.plot.bottom - 1

def labelledColumns : List Binary64 :=
  f.xTicks.filter fun tick => f.plot.left ≤ f.column tick ∧ f.column tick ≤ f.plot.right - 1

/-- What is written at a tick of the vertical and of the horizontal axis. -/
def yLabel (tick : Binary64) : String := String.ofList (Binary64.padLeft 5 tick.shortText)

def xLabel (tick : Binary64) : String := String.ofList tick.wholeText

/-- The labels of an axis are those of the ticks inside. -/
theorem filterMap_axis {line : List Pixel} {ticks : List Binary64} {inside : Binary64 → Prop}
    [DecidablePred inside] {role : TextRole} {spot : Binary64 → Pixel} {label : Binary64 → String}
    {mark : Binary64 → List Pixel} :
    (Shape.curve .axis .black line :: ticks.flatMap fun tick =>
      if inside tick then
        [.text role (spot tick) (label tick), .curve .axis .black (mark tick)]
      else []).filterMap (Shape.labelOf? role) =
      (ticks.filter fun tick => inside tick).map fun tick => (spot tick, label tick) := by
  rw [List.filterMap_cons_none rfl]
  induction ticks with
  | nil => rfl
  | cons tick ticks ih =>
      rw [List.flatMap_cons, List.filterMap_append, ih]
      by_cases h : inside tick
      · simp [h, Shape.labelOf?]
      · simp [h]

end Frame

namespace ChartData

variable (d : ChartData) (f : Frame)

/-- Only the axes have labels of ticks. -/
theorem filterMap_shapes_axes {role : TextRole} (hrole : role = .yLabel ∨ role = .xLabel) :
    (d.shapes f).filterMap (Shape.labelOf? role) =
      f.yAxis.filterMap (Shape.labelOf? role) ++ f.xAxis.filterMap (Shape.labelOf? role) := by
  have hfront : (f.background :: f.titles d.title d.axisTitle).filterMap
      (Shape.labelOf? role) = [] := by
    rcases hrole with rfl | rfl
    · rfl
    · rfl
  have hmesh : ∀ shape ∈ f.mesh, shape.labelOf? role = none := f.forall_mesh fun _ _ => rfl
  have hcurves : ∀ shape ∈ f.curves d.series, shape.labelOf? role = none :=
    f.forall_curves (fun _ _ => rfl) d.series
  have hlegend : ∀ shape ∈ Legend.shapes f.plot d.series, shape.labelOf? role = none :=
    Legend.forall_shapes (fun _ _ _ _ => rfl)
      (by rcases hrole with rfl | rfl <;> exact fun _ _ => rfl) (fun _ _ => rfl) f.plot d.series
  rw [← List.filterMap_eq_nil_iff] at hmesh hcurves hlegend
  rw [shapes]
  simp only [List.filterMap_append, hfront, hmesh, hcurves, hlegend, List.nil_append,
    List.append_nil]

theorem filterMap_shapes_yLabel :
    (d.shapes f).filterMap (Shape.labelOf? .yLabel) =
      f.labelledRows.map fun tick => (⟨116, f.row tick⟩, Frame.yLabel tick) := by
  have hx : ∀ shape ∈ f.xAxis, shape.labelOf? .yLabel = none :=
    Frame.forall_axis (fun _ => rfl) fun _ _ => rfl
  rw [← List.filterMap_eq_nil_iff] at hx
  rw [d.filterMap_shapes_axes f (.inl rfl), hx, List.append_nil]
  refine Frame.filterMap_axis.trans (List.map_congr_left fun tick htick => ?_)
  obtain ⟨htop, hbottom⟩ := of_decide_eq_true (List.mem_filter.mp htick).2
  have hspot : f.yStrip.clamp ⟨116, f.row tick⟩ = ⟨116, f.row tick⟩ := by
    simp only [Area.clamp, Frame.yStrip, Pixel.mk.injEq]
    omega
  exact Prod.ext hspot rfl

theorem filterMap_shapes_xLabel :
    (d.shapes f).filterMap (Shape.labelOf? .xLabel) =
      f.labelledColumns.map fun tick =>
        (⟨f.column tick, f.plot.bottom + 4⟩, Frame.xLabel tick) := by
  have hy : ∀ shape ∈ f.yAxis, shape.labelOf? .xLabel = none :=
    Frame.forall_axis (fun _ => rfl) fun _ _ => rfl
  rw [← List.filterMap_eq_nil_iff] at hy
  rw [d.filterMap_shapes_axes f (.inr rfl), hy, List.nil_append]
  refine Frame.filterMap_axis.trans (List.map_congr_left fun tick htick => ?_)
  obtain ⟨hleft, hright⟩ := of_decide_eq_true (List.mem_filter.mp htick).2
  have hspot : f.xStrip.clamp ⟨f.column tick, f.plot.bottom + 4⟩ =
      ⟨f.column tick, f.plot.bottom + 4⟩ := by
    simp only [Area.clamp, Frame.xStrip, Frame.plot, Pixel.mk.injEq] at hleft hright ⊢
    omega
  exact Prod.ext hspot rfl

/-- Texts that tell ticks apart tell places apart. -/
theorem tellsApart_of_map {drawing : Drawing} {role : TextRole} {ticks ticks' : List Binary64}
    {spot : Binary64 → Pixel} {text : Binary64 → String}
    (hlabels : drawing.labels role = ticks'.map fun tick => (spot tick, text tick))
    (hsub : ticks' ⊆ ticks) (h : ∀ t ∈ ticks, ∀ t' ∈ ticks, text t = text t' → t = t') :
    drawing.TellsApart role := by
  rw [Drawing.TellsApart, hlabels]
  intro label hlabel label' hlabel' htext
  obtain ⟨t, ht, rfl⟩ := List.mem_map.mp hlabel
  obtain ⟨t', ht', rfl⟩ := List.mem_map.mp hlabel'
  rw [h t (hsub ht) t' (hsub ht') htext]

theorem xTicks_of_frame? {d : ChartData} {size : Size} {frame : Frame}
    (h : d.frame? size = some frame) : Ticks.ofRange d.xRange = some frame.xTicks := by
  simp only [frame?, Option.bind_eq_bind, Option.bind_eq_some_iff] at h
  obtain ⟨xTicks, hx, yTicks, -, heq⟩ := h
  obtain rfl := Option.some.inj heq
  exact hx

/-! ## Main result -/

/-- A document shows its ticks with their labels. Those of the vertical axis tell all ticks apart.
Those of the horizontal axis are the same exactly for ticks that are rounded to one whole number and
have one sign, so they tell apart whole numbers, and ticks that are more than one apart. If the
values on this axis are a hundred apart, there are no other ticks. -/
theorem document_tickLabels (d : ChartData) (size : Size) (document : List Char)
    (h : d.document size = .ok document) :
    ∃ drawing frame, Drawing.ofSvg? document = some drawing ∧ d.frame? size = some frame ∧
      drawing.labels .yLabel =
        frame.labelledRows.map (fun tick => (⟨116, frame.row tick⟩, Frame.yLabel tick)) ∧
      drawing.labels .xLabel = frame.labelledColumns.map (fun tick =>
        (⟨frame.column tick, frame.plot.bottom + 4⟩, Frame.xLabel tick)) ∧
      drawing.TellsApart .yLabel ∧
      (∀ t ∈ frame.yTicks, ∀ t' ∈ frame.yTicks, Frame.yLabel t = Frame.yLabel t' → t = t') ∧
      (∀ t ∈ frame.xTicks, ∀ t' ∈ frame.xTicks, Frame.xLabel t = Frame.xLabel t' ↔
        t = t' ∨ t.isFinite ∧ t'.isFinite ∧ t.negative = t'.negative ∧
          ∃ n, RoundsTo t.toRat n ∧ RoundsTo t'.toRat n) ∧
      (∀ t ∈ frame.xTicks, ∀ t' ∈ frame.xTicks, t ≠ t' →
        (∃ m n : Int, t.toRat = m ∧ t'.toRat = n) ∨ 1 < |t.toRat - t'.toRat| →
          Frame.xLabel t ≠ Frame.xLabel t') ∧
      (Range.AreWide (d.drawable.map DataPoint.x) → drawing.TellsApart .xLabel ∧
        ∀ t ∈ frame.xTicks, ∀ t' ∈ frame.xTicks, Frame.xLabel t = Frame.xLabel t' → t = t') := by
  obtain ⟨frame, hframe, rfl⟩ := document_eq_ok_iff.mp h
  have hy : ∀ t ∈ frame.yTicks, ∀ t' ∈ frame.yTicks, Frame.yLabel t = Frame.yLabel t' → t = t' :=
    fun t _ t' _ htext =>
      Binary64.padLeft_shortText_injective 5 (String.ofList_injective htext)
  have hsame : ∀ {t t' : Binary64}, Frame.xLabel t = Frame.xLabel t' ↔ t.wholeText = t'.wholeText :=
    String.ofList_inj
  have hrows := d.filterMap_shapes_yLabel frame
  have hcolumns := d.filterMap_shapes_xLabel frame
  refine ⟨_, frame, ofSvg?_svg (d.legendLast_shapes frame), hframe, hrows, hcolumns,
    tellsApart_of_map hrows (List.filter_subset_self _) hy, hy, ?_, ?_, ?_⟩
  · exact fun t _ t' _ => hsame.trans Binary64.wholeText_eq_iff
  · exact fun t _ t' _ hne happart htext => Binary64.wholeText_ne hne happart (hsame.mp htext)
  · intro hwide
    have hfinite : ∀ v ∈ d.drawable.map DataPoint.x, v.isFinite := by
      intro v hv
      obtain ⟨p, hp, rfl⟩ := List.mem_map.mp hv
      exact (Bool.and_eq_true_iff.mp (List.mem_filter.mp hp).2).1
    have hx : ∀ t ∈ frame.xTicks, ∀ t' ∈ frame.xTicks,
        Frame.xLabel t = Frame.xLabel t' → t = t' := fun t ht t' ht' htext =>
      Ticks.eq_of_wholeText (hwide.isWide hfinite) (xTicks_of_frame? hframe) ht ht'
        (hsame.mp htext)
    exact ⟨tellsApart_of_map hcolumns (List.filter_subset_self _) hx, hx⟩

/-- Timings of two sizes. -/
def sizesChart : ChartData :=
  ofTable (.ofList [⟨100, 4, 4, 1, 12, 3, 1, 12⟩, ⟨1000, 4, 4, 2, 25, 6, 2, 12⟩]) (some .rows1) ""

theorem document_tickLabels_sizesChart :
    ∃ document drawing, sizesChart.document ⟨800, 400⟩ = .ok document ∧
      Drawing.ofSvg? document = some drawing ∧ drawing.TellsApart .xLabel ∧
      (drawing.labels .xLabel).map Prod.snd =
        ["100", "200", "300", "400", "500", "600", "700", "800", "900", "1000"] := by
  have hcolumns : ((sizesChart.frame? ⟨800, 400⟩).map fun frame =>
      frame.labelledColumns.map Frame.xLabel) =
      some ["100", "200", "300", "400", "500", "600", "700", "800", "900", "1000"] := by
    decide +kernel
  obtain ⟨frame, hframe, -⟩ := Option.map_eq_some_iff.mp hcolumns
  have hdocument := document_eq_ok_iff.mpr ⟨frame, hframe, rfl⟩
  have hwide : Range.AreWide (sizesChart.drawable.map DataPoint.x) := by
    constructor
    all_goals decide +kernel
  obtain ⟨drawing, frame', hread, hframe', -, hlabels, -, -, -, -, hspread⟩ :=
    document_tickLabels _ _ _ hdocument
  rw [hframe', Option.map_some] at hcolumns
  refine ⟨_, drawing, hdocument, hread, (hspread hwide).1, ?_⟩
  rw [hlabels, List.map_map]
  exact Option.some.inj hcolumns

/-- Two numbers of threads. -/
def threadsChart : ChartData :=
  ofTable (.ofList [⟨100, 4, 4, 1, 12, 3, 1, 12⟩, ⟨100, 4, 4, 2, 25, 6, 2, 12⟩]) (some .threads) ""

/-- Ticks at steps of a fifth are not told apart. -/
theorem not_tellsApart_threadsChart :
    ∃ document drawing, threadsChart.document ⟨800, 400⟩ = .ok document ∧
      Drawing.ofSvg? document = some drawing ∧ ¬ drawing.TellsApart .xLabel ∧
      drawing.labels .xLabel = [(⟨174, 324⟩, "1"), (⟨284, 324⟩, "1"), (⟨394, 324⟩, "1"),
        (⟨504, 324⟩, "2"), (⟨614, 324⟩, "2"), (⟨724, 324⟩, "2")] := by
  have hcolumns : ((threadsChart.frame? ⟨800, 400⟩).map fun frame =>
      frame.labelledColumns.map fun tick =>
        ((⟨frame.column tick, frame.plot.bottom + 4⟩ : Pixel), Frame.xLabel tick)) =
      some [(⟨174, 324⟩, "1"), (⟨284, 324⟩, "1"), (⟨394, 324⟩, "1"),
        (⟨504, 324⟩, "2"), (⟨614, 324⟩, "2"), (⟨724, 324⟩, "2")] := by
    decide +kernel
  obtain ⟨frame, hframe, hlabels⟩ := Option.map_eq_some_iff.mp hcolumns
  have hdrawn := (threadsChart.filterMap_shapes_xLabel frame).trans hlabels
  refine ⟨_, _, document_eq_ok_iff.mpr ⟨frame, hframe, rfl⟩,
    ofSvg?_svg (legendLast_shapes _ frame), ?_, hdrawn⟩
  rw [Drawing.TellsApart, Drawing.labels, hdrawn]
  decide

end ChartData

end TimingChart
