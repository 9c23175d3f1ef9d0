import TimingChart.Proofs.Chart.Placement

/-! # Vertices of data lines

A chart that is large enough, and whose coordinates have finite spans, draws each point inside the
plotting area. Columns keep the order of the horizontal coordinates and rows reverse that of the
vertical ones, across all series. -/

namespace TimingChart

/-! ## The plotting area -/

/-- The pixel is one of the area, whose right and bottom bounds are just outside. -/
structure Area.Holds (a : Area) (p : Pixel) : Prop where
  left_le : a.left ≤ p.x
  lt_right : p.x < a.right
  top_le : a.top ≤ p.y
  lt_bottom : p.y < a.bottom

namespace Frame

/-- The ranges of a frame are proper, and its plotting area has a pixel at least. -/
structure IsRoomy (f : Frame) : Prop where
  xProper : f.xRange.IsProper
  yProper : f.yRange.IsProper
  width_ge : 141 ≤ f.width
  width_le : f.width ≤ 0x7FFFFFFF
  height_ge : 136 ≤ f.height
  height_le : f.height ≤ 0x7FFFFFFF

/-- Both coordinates of a point are on the axes. -/
structure Contains (f : Frame) (p : DataPoint) : Prop where
  onX : f.xRange.Contains p.x
  onY : f.yRange.Contains p.y

variable {f : Frame} {p q : DataPoint} (hf : f.IsRoomy) (hp : f.Contains p) (hq : f.Contains q)
include hf hp hq

theorem column_spec : f.column p.x < f.plot.right ∧ (p.x ≤ q.x → f.column p.x ≤ f.column q.x) := by
  have hge := hf.width_ge
  have hle := hf.width_le
  have hplace : f.column p.x ≤ f.plot.right - 1 ∧ (p.x ≤ q.x → f.column p.x ≤ f.column q.x) := by
    apply Range.toPixel_ascending hf.xProper ?_ ?_ ?_ hp.onX hq.onX
    all_goals simp only [xPixels, plot]; omega
  exact ⟨Int.lt_of_le_sub_one hplace.1, hplace.2⟩

theorem row_spec : f.row p.y < f.plot.bottom ∧ (p.y ≤ q.y → f.row q.y ≤ f.row p.y) := by
  have hge := hf.height_ge
  have hle := hf.height_le
  have hplace : f.row p.y ≤ f.plot.bottom - 1 ∧ (p.y ≤ q.y → f.row q.y ≤ f.row p.y) := by
    apply Range.toPixel_descending hf.yProper ?_ ?_ ?_ hp.onY hq.onY
    all_goals simp only [yPixels, plot]; omega
  exact ⟨Int.lt_of_le_sub_one hplace.1, hplace.2⟩

/-- Clamping keeps what the axes say. -/
theorem pixel_spec :
    f.plot.Holds (f.pixel p) ∧ (p.x ≤ q.x → (f.pixel p).x ≤ (f.pixel q).x) ∧
      (p.y ≤ q.y → (f.pixel q).y ≤ (f.pixel p).y) := by
  obtain ⟨hright, hcolumn⟩ := column_spec hf hp hq
  obtain ⟨hbottom, hrow⟩ := row_spec hf hp hq
  have hwide : f.plot.left < f.plot.right := by
    have hge := hf.width_ge
    simp only [plot]
    omega
  have hhigh : f.plot.top < f.plot.bottom := by
    have hge := hf.height_ge
    simp only [plot]
    omega
  refine ⟨⟨le_max_left _ _, ?_, le_max_left _ _, ?_⟩, fun hle => ?_, fun hle => ?_⟩
  · exact max_lt hwide ((min_le_right _ _).trans_lt hright)
  · exact max_lt hhigh ((min_le_right _ _).trans_lt hbottom)
  · exact max_le_max_left _ (min_le_min_left _ (hcolumn hle))
  · exact max_le_max_left _ (min_le_min_left _ (hrow hle))

end Frame

/-! ## Data lines -/

/-- Colour and vertices of a shape, if it is a data line. -/
def Shape.dataLine? : Shape → Option (Color × List Pixel)
  | .curve .data color points => some (color, points)
  | _ => none

/-- Colour and vertices of each data line, from back to front. -/
def Drawing.dataLines (d : Drawing) : List (Color × List Pixel) :=
  d.shapes.filterMap Shape.dataLine?

theorem Shape.IsScenery.dataLine?_eq_none {shape : Shape} (h : shape.IsScenery) :
    shape.dataLine? = none := by
  cases shape with
  | curve role color points =>
      cases role with
      | data => cases h.not_data
      | _ => rfl
  | _ => rfl

namespace ChartData

variable (d : ChartData)

theorem dataLines_shapes (f : Frame) :
    (d.shapes f).filterMap Shape.dataLine? =
      d.series.flatMap fun s => s.runs.map fun run => (s.color, run.map f.pixel) := by
  have hscenery : (f.scenery d.title d.axisTitle).filterMap Shape.dataLine? = [] :=
    List.filterMap_eq_nil_iff.mpr fun shape hshape =>
      (f.isScenery_scenery d.title d.axisTitle shape hshape).dataLine?_eq_none
  have hcurves : (f.curves d.series).filterMap Shape.dataLine? =
      d.series.flatMap fun s => s.runs.map fun run => (s.color, run.map f.pixel) := by
    simp [Frame.curves, List.filterMap_flatMap, List.filterMap_map, Function.comp_def,
      Shape.dataLine?]
  have hlegend : (Legend.shapes f.plot d.series).filterMap Shape.dataLine? = [] :=
    List.filterMap_eq_nil_iff.mpr
      (Legend.forall_shapes (fun _ _ _ _ => rfl) (fun _ _ => rfl) (fun _ _ => rfl) f.plot d.series)
  rw [shapes_eq, List.filterMap_append, List.filterMap_append, hscenery, hcurves, hlegend,
    List.nil_append, List.append_nil]

/-- The points of runs are points that can be drawn. -/
theorem mem_drawable_of_mem_run {d : ChartData} {s : Series} {run : List DataPoint}
    {p : DataPoint} (hs : s ∈ d.series) (hrun : run ∈ s.runs) (hp : p ∈ run) : p ∈ d.drawable := by
  have hflatten := List.mem_flatten_of_mem hrun hp
  rw [s.flatten_runs, List.mem_filter] at hflatten
  exact List.mem_filter.mpr ⟨List.mem_flatMap_of_mem hs hflatten.1, hflatten.2⟩

end ChartData

/-! ## Frames of charts -/

/-- The distance between extremes of the values is a finite double. -/
def HasFiniteSpan (values : List Binary64) : Prop :=
  ∀ bounds, AreExtremes values bounds → (bounds.2 - bounds.1).isFinite

/-- One pair of extremes is enough to tell. -/
theorem HasFiniteSpan.of_minAndMax {values : List Binary64} (bounds : Binary64 × Binary64)
    (hfinite : ∀ v ∈ values, v.isFinite) (hbounds : minAndMax values = some bounds)
    (hspan : (bounds.2 - bounds.1).isFinite) : HasFiniteSpan values := by
  intro bounds' hextremes
  rwa [Range.span_congr hfinite hextremes (Range.minAndMax_extremes hbounds)]

theorem Range.Shows.contains {r : Range} {values : List Binary64} (h : r.Shows values)
    (hspan : HasFiniteSpan values) {v : Binary64} (hv : v ∈ values) : r.Contains v := by
  obtain ⟨bounds, hbounds⟩ := h.exists_extremes (List.ne_nil_of_mem hv)
  exact h.holds bounds hbounds (hspan bounds hbounds) v hv

/-- Sizes that are not negative as signed numbers stay as they are. -/
theorem toInt_toInt32 {n : UInt32} (hn : n.toNat ≤ 0x7FFFFFFF) : n.toInt32.toInt = n.toNat := by
  change n.toBitVec.toInt = n.toNat
  rw [BitVec.toInt_eq_toNat_of_lt]
  · rfl
  · change 2 * n.toNat < _
    omega

/-- A size in which a chart has a plotting area, and that is not negative as a signed number. -/
structure Size.IsRoomy (size : Size) : Prop where
  width_ge : 141 ≤ size.width.toNat
  width_le : size.width.toNat ≤ 0x7FFFFFFF
  height_ge : 136 ≤ size.height.toNat
  height_le : size.height.toNat ≤ 0x7FFFFFFF

namespace ChartData

variable {d : ChartData} {size : Size} {frame : Frame}

theorem frame?_eq_some (h : d.frame? size = some frame) :
    frame.width = size.width.toInt32.toInt ∧ frame.height = size.height.toInt32.toInt ∧
      frame.xRange = d.xRange ∧ frame.yRange = d.yRange := by
  simp only [frame?, Option.bind_eq_bind, Option.bind_eq_some_iff] at h
  obtain ⟨xTicks, -, yTicks, -, heq⟩ := h
  obtain rfl := Option.some.inj heq
  exact ⟨rfl, rfl, rfl, rfl⟩

theorem isRoomy_of_frame? (hsize : size.IsRoomy) (h : d.frame? size = some frame) :
    frame.IsRoomy := by
  obtain ⟨hwidth, hheight, hx, hy⟩ := frame?_eq_some h
  rw [toInt_toInt32 hsize.width_le] at hwidth
  rw [toInt_toInt32 hsize.height_le] at hheight
  have hwidth_ge := hsize.width_ge
  have hwidth_le := hsize.width_le
  have hheight_ge := hsize.height_ge
  have hheight_le := hsize.height_le
  constructor
  case xProper => rw [hx]; exact d.xRange_shows.proper
  case yProper => rw [hy]; exact d.yRange_shows.proper
  all_goals omega

/-- The coordinates of all points that can be drawn have finite spans. -/
structure HasFiniteSpans (d : ChartData) : Prop where
  onX : HasFiniteSpan (d.drawable.map DataPoint.x)
  onY : HasFiniteSpan (d.drawable.map DataPoint.y)

theorem contains_of_mem_drawable (hspans : d.HasFiniteSpans) (h : d.frame? size = some frame)
    {p : DataPoint} (hp : p ∈ d.drawable) : frame.Contains p := by
  obtain ⟨-, -, hx, hy⟩ := frame?_eq_some h
  constructor
  case onX =>
    rw [hx]
    exact d.xRange_shows.contains hspans.onX (List.mem_map_of_mem hp)
  case onY =>
    rw [hy]
    exact d.yRange_shows.contains hspans.onY (List.mem_map_of_mem hp)

/-! ## Main result -/

/-- In a large enough size and with finite spans, the document of a chart shows the runs of its
points, in their order, as lines whose vertices all lie in the plotting area. No two points of any
series change their order: columns grow with the horizontal coordinate, and larger timings are never
lower. -/
theorem document_keepsOrder (d : ChartData) (size : Size) (document : List Char)
    (hsize : size.IsRoomy) (hspans : d.HasFiniteSpans) (h : d.document size = .ok document) :
    ∃ drawing frame, Drawing.ofSvg? document = some drawing ∧ d.frame? size = some frame ∧
      frame.plot = ⟨120, 55, size.width.toNat - 20, size.height.toNat - 80⟩ ∧
      (∀ s ∈ d.series, AreMaximalRuns s.points s.runs) ∧
      drawing.dataLines =
        (d.series.flatMap fun s => s.runs.map fun run => (s.color, run.map frame.pixel)) ∧
      (∀ line ∈ drawing.dataLines, ∀ vertex ∈ line.2, frame.plot.Holds vertex) ∧
      ∀ p ∈ d.drawable, ∀ q ∈ d.drawable,
        (p.x ≤ q.x → (frame.pixel p).x ≤ (frame.pixel q).x) ∧
        (p.y ≤ q.y → (frame.pixel q).y ≤ (frame.pixel p).y) := by
  obtain ⟨frame, hframe, rfl⟩ := document_eq_ok_iff.mp h
  have hroomy := isRoomy_of_frame? hsize hframe
  have hpixel := fun p (hp : p ∈ d.drawable) q (hq : q ∈ d.drawable) =>
    Frame.pixel_spec hroomy (contains_of_mem_drawable hspans hframe hp)
      (contains_of_mem_drawable hspans hframe hq)
  have hlines := d.dataLines_shapes frame
  refine ⟨_, frame, ofSvg?_svg (d.legendLast_shapes frame), hframe, ?_,
    fun s _ => s.areMaximalRuns_runs, hlines, ?_, fun p hp q hq => (hpixel p hp q hq).2⟩
  · obtain ⟨hwidth, hheight, -, -⟩ := frame?_eq_some hframe
    rw [Frame.plot, hwidth, hheight, toInt_toInt32 hsize.width_le, toInt_toInt32 hsize.height_le]
  · intro line hline vertex hvertex
    rw [Drawing.dataLines, hlines] at hline
    obtain ⟨s, hs, hline⟩ := List.mem_flatMap.mp hline
    obtain ⟨run, hrun, rfl⟩ := List.mem_map.mp hline
    obtain ⟨p, hp, rfl⟩ := List.mem_map.mp hvertex
    have hdrawable := mem_drawable_of_mem_run hs hrun hp
    exact (hpixel p hdrawable p hdrawable).1

theorem document_keepsOrder_gappyChart :
    ∃ document drawing, gappyChart.document ⟨1600, 800⟩ = .ok document ∧
      Drawing.ofSvg? document = some drawing ∧
      drawing.dataLines =
        [(⟨255, 0, 0⟩, [⟨241, 387⟩]), (⟨255, 0, 0⟩, [⟨1153, 111⟩, ⟨1457, 664⟩])] := by
  have hvertices : ((gappyChart.frame? ⟨1600, 800⟩).map fun frame =>
      gappyChart.series.flatMap fun s => s.runs.map fun run => (s.color, run.map frame.pixel)) =
      some [(⟨255, 0, 0⟩, [⟨241, 387⟩]), (⟨255, 0, 0⟩, [⟨1153, 111⟩, ⟨1457, 664⟩])] := by
    decide +kernel
  obtain ⟨frame, hframe, -⟩ := Option.map_eq_some_iff.mp hvertices
  have hdocument := document_eq_ok_iff.mpr ⟨frame, hframe, rfl⟩
  have hsize : Size.IsRoomy ⟨1600, 800⟩ := by constructor <;> decide
  have hspans : gappyChart.HasFiniteSpans := by
    constructor
    case onX =>
      apply HasFiniteSpan.of_minAndMax (1, 5)
      all_goals decide +kernel
    case onY =>
      apply HasFiniteSpan.of_minAndMax (1, 3)
      all_goals decide +kernel
  obtain ⟨drawing, frame', hread, hframe', -, -, hlines, -, -⟩ :=
    document_keepsOrder _ _ _ hsize hspans hdocument
  rw [hframe', Option.map_some] at hvertices
  exact ⟨_, drawing, hdocument, hread, hlines.trans (Option.some.inj hvertices)⟩

end ChartData

end TimingChart
