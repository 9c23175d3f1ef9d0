import TimingChart.Chart.Summary
import TimingChart.Proofs.Chart.MaximalRuns
import TimingChart.Proofs.Chart.ReadBack
import TimingChart.Run.Plan

/-! # Lines and legend of a chart

The document of a chart shows one line for each maximal run of points that can be drawn, and its
legend has one entry for each series with such a run. -/

namespace TimingChart

/-! ## What is neither data nor legend -/

/-- A shape that is no data, no part of a legend, and does not begin one. -/
structure Shape.IsScenery (shape : Shape) : Prop where
  not_data : shape.curveOf? .data = none
  not_mark : shape.curveOf? .legendMark = none
  not_label : shape.textOf? .legendLabel = none
  not_box : shape.isLegendBox = false

namespace Frame

variable (f : Frame)

/-- All that is drawn before the data. -/
def scenery (caption axisTitle : String) : List Shape :=
  f.background :: f.titles caption axisTitle ++ f.mesh ++ f.yAxis ++ f.xAxis

theorem isScenery_titles (caption axisTitle : String) :
    ∀ shape ∈ f.titles caption axisTitle, shape.IsScenery := by
  simp only [titles, List.forall_mem_cons]
  exact ⟨⟨rfl, rfl, rfl, rfl⟩, ⟨rfl, rfl, rfl, rfl⟩, ⟨rfl, rfl, rfl, rfl⟩, by simp⟩

/-- A mesh has what all its lines have in common. -/
theorem forall_mesh {holds : Shape → Prop} (h : ∀ start stop, holds (.meshLine start stop)) :
    ∀ shape ∈ f.mesh, holds shape := by
  intro shape hshape
  rcases List.mem_append.mp hshape with hx | hy
  · obtain ⟨tick, -, rfl⟩ := List.mem_map.mp hx
    exact h _ _
  · obtain ⟨tick, -, rfl⟩ := List.mem_map.mp hy
    exact h _ _

/-- An axis is a line, and a label and a mark at some of its ticks. It has what these have in
common. -/
theorem forall_axis {holds : Shape → Prop} {line : List Pixel} {ticks : List Binary64}
    {inside : Binary64 → Prop} [DecidablePred inside] {role : TextRole}
    {spot : Binary64 → Pixel} {label : Binary64 → String} {mark : Binary64 → List Pixel}
    (hcurve : ∀ points, holds (.curve .axis .black points))
    (htext : ∀ position content, holds (.text role position content)) :
    ∀ shape ∈ Shape.curve .axis .black line :: ticks.flatMap fun tick =>
      if inside tick then
        [.text role (spot tick) (label tick), .curve .axis .black (mark tick)]
      else [], holds shape := by
  rw [List.forall_mem_cons]
  refine ⟨hcurve line, fun shape hshape => ?_⟩
  obtain ⟨tick, -, hmem⟩ := List.mem_flatMap.mp hshape
  split at hmem
  · rcases List.mem_cons.mp hmem with rfl | hmem
    · exact htext _ _
    · obtain rfl := List.mem_singleton.mp hmem
      exact hcurve _
  · cases hmem

/-- Curves are data lines only. -/
theorem forall_curves {holds : Shape → Prop} (h : ∀ color points, holds (.curve .data color points))
    (series : List Series) : ∀ shape ∈ f.curves series, holds shape := by
  intro shape hshape
  obtain ⟨s, -, hrun⟩ := List.mem_flatMap.mp hshape
  obtain ⟨run, -, rfl⟩ := List.mem_map.mp hrun
  exact h _ _

theorem isScenery_mesh : ∀ shape ∈ f.mesh, shape.IsScenery :=
  f.forall_mesh fun _ _ => ⟨rfl, rfl, rfl, rfl⟩

theorem isScenery_scenery (caption axisTitle : String) :
    ∀ shape ∈ f.scenery caption axisTitle, shape.IsScenery := by
  have hline : ∀ points, (Shape.curve .axis .black points).IsScenery := fun _ => ⟨rfl, rfl, rfl, rfl⟩
  have hy : ∀ position content, (Shape.text .yLabel position content).IsScenery :=
    fun _ _ => ⟨rfl, rfl, rfl, rfl⟩
  have hx : ∀ position content, (Shape.text .xLabel position content).IsScenery :=
    fun _ _ => ⟨rfl, rfl, rfl, rfl⟩
  simp only [scenery, List.forall_mem_append, List.forall_mem_cons]
  exact ⟨⟨⟨⟨⟨rfl, rfl, rfl, rfl⟩, f.isScenery_titles caption axisTitle⟩, f.isScenery_mesh⟩,
    forall_axis hline hy⟩, forall_axis hline hx⟩

end Frame

/-! ## Series with anything to show -/

namespace Series

/-- Whether any point of a series can be drawn. -/
def isVisible (s : Series) : Bool := s.points.any DataPoint.isDrawable

theorem isEmpty_runs (s : Series) : (!s.runs.isEmpty) = s.isVisible := by
  have hflatten := s.flatten_runs
  cases hruns : s.runs with
  | nil =>
      rw [hruns, List.flatten_nil, eq_comm, List.filter_eq_nil_iff] at hflatten
      have hnone : s.isVisible = false := List.any_eq_false.mpr hflatten
      rw [hnone]
      rfl
  | cons run runs =>
      have hrun : run ∈ s.runs := by
        rw [hruns]
        exact List.mem_cons_self
      have hne : run ≠ [] := by
        have hfilter := (List.mem_filter.mp hrun).2
        simpa using hfilter
      obtain ⟨p, rest, rfl⟩ := List.exists_cons_of_ne_nil hne
      have hp : p ∈ s.points.filter DataPoint.isDrawable := by
        rw [← hflatten]
        exact List.mem_flatten_of_mem hrun List.mem_cons_self
      have hsome : s.isVisible = true :=
        List.any_eq_true.mpr ⟨p, (List.mem_filter.mp hp).1, (List.mem_filter.mp hp).2⟩
      rw [hsome]
      rfl

theorem sum_length_runs (s : Series) :
    (s.runs.map List.length).sum = (s.points.filter DataPoint.isDrawable).length := by
  rw [← s.flatten_runs, List.length_flatten]

end Series

theorem Legend.entries_eq (series : List Series) :
    Legend.entries series = series.filter Series.isVisible :=
  List.filter_congr fun s _ => s.isEmpty_runs

/-! ## What the shapes of a chart show -/

theorem legendLast_append {inLegend : Bool} {shapes more : List Shape} :
    LegendLast inLegend (shapes ++ more) ↔
      LegendLast inLegend shapes ∧ LegendLast (inLegend || shapes.any Shape.isLegendBox) more := by
  induction shapes generalizing inLegend with
  | nil => simp [LegendLast]
  | cons shape shapes ih =>
      simp only [List.cons_append, LegendLast, ih, List.any_cons, Bool.or_assoc, and_assoc]

/-- Shapes that fit in and do not begin a legend keep the order, wherever they are drawn. -/
theorem legendLast_of_forall {inLegend : Bool} {shapes : List Shape}
    (h : ∀ shape ∈ shapes, shape.FitsIn inLegend ∧ shape.isLegendBox = false) :
    LegendLast inLegend shapes := by
  induction shapes with
  | nil => trivial
  | cons shape shapes ih =>
      obtain ⟨⟨hfits, hbox⟩, hshapes⟩ := List.forall_mem_cons.mp h
      refine ⟨hfits, ?_⟩
      rw [hbox, Bool.or_false]
      exact ih hshapes

theorem Shape.IsScenery.fitsIn {shape : Shape} (h : shape.IsScenery) (inLegend : Bool) :
    shape.FitsIn inLegend := by
  cases shape with
  | curve role color points =>
      cases role with
      | axis => trivial
      | data => cases h.not_data
      | legendMark => cases h.not_mark
  | _ => trivial

namespace Legend

/-- A legend is boxes, labels and marks. It has what these have in common. -/
theorem forall_shapes {holds : Shape → Prop}
    (hbox : ∀ role corner width height, holds (.box role corner width height))
    (hlabel : ∀ position content, holds (.text .legendLabel position content))
    (hmark : ∀ color points, holds (.curve .legendMark color points)) (plot : Area)
    (series : List Series) : ∀ shape ∈ shapes plot series, holds shape := by
  rw [shapes]
  split
  · simp
  · simp only [List.forall_mem_append, List.forall_mem_cons]
    refine ⟨⟨⟨hbox _ _ _ _, hbox _ _ _ _, by simp⟩, ?_⟩, ?_⟩
    · intro shape hshape
      obtain ⟨entry, -, rfl⟩ := List.mem_map.mp hshape
      exact hlabel _ _
    · intro shape hshape
      obtain ⟨entry, -, rfl⟩ := List.mem_map.mp hshape
      exact hmark _ _

theorem legendLast_shapes (plot : Area) (series : List Series) :
    LegendLast false (shapes plot series) := by
  rw [shapes]
  split
  · trivial
  · rw [List.append_assoc, legendLast_append]
    refine ⟨⟨trivial, trivial, trivial⟩, legendLast_of_forall fun shape hshape => ?_⟩
    rcases List.mem_append.mp hshape with hlabel | hmark
    · obtain ⟨entry, -, rfl⟩ := List.mem_map.mp hlabel
      exact ⟨trivial, rfl⟩
    · obtain ⟨entry, -, rfl⟩ := List.mem_map.mp hmark
      exact ⟨rfl, rfl⟩

/-- What the entries of a legend show in one of their shapes. -/
theorem filterMap_zipIdx {α : Type} {read : Shape → Option α} (entries : List Series)
    {shapeOf : Series × Nat → Shape} {value : Series → Option α}
    (h : ∀ entry, read (shapeOf entry) = value entry.1) :
    (entries.zipIdx.map shapeOf).filterMap read = entries.filterMap value := by
  have hfun : read ∘ shapeOf = value ∘ Prod.fst := funext h
  rw [List.filterMap_map, hfun, ← List.filterMap_map, List.zipIdx_map_fst]

end Legend

/-- A reading of shapes that finds nothing in scenery and boxes. It finds the same in a data line
whatever points it has, as long as there are as many. -/
structure Reading (α : Type) where
  read : Shape → Option α
  data : Series → Nat → Option α
  label : Series → Option α
  mark : Series → Option α
  read_scenery : ∀ shape, shape.IsScenery → read shape = none
  read_box : ∀ role corner width height, read (.box role corner width height) = none
  read_data : ∀ (s : Series) points, read (.curve .data s.color points) = data s points.length
  read_label : ∀ (s : Series) position, read (.text .legendLabel position s.label) = label s
  read_mark : ∀ (s : Series) p q, read (.curve .legendMark s.color [p, q]) = mark s

namespace Reading

variable {α : Type} (r : Reading α)

theorem filterMap_legend (plot : Area) (series : List Series) :
    (Legend.shapes plot series).filterMap r.read =
      (Legend.entries series).filterMap r.label ++ (Legend.entries series).filterMap r.mark := by
  rw [Legend.shapes]
  split
  next hempty =>
    rw [List.isEmpty_iff.mp hempty]
    rfl
  next =>
    rw [List.filterMap_append, List.filterMap_append,
      Legend.filterMap_zipIdx _ fun _ => r.read_label _ _,
      Legend.filterMap_zipIdx _ fun _ => r.read_mark _ _ _]
    simp only [List.filterMap_cons, r.read_box, List.filterMap_nil, List.nil_append]

theorem filterMap_curves (f : Frame) (series : List Series) :
    (f.curves series).filterMap r.read =
      series.flatMap fun s => s.runs.filterMap fun run => r.data s run.length := by
  rw [Frame.curves, List.filterMap_flatMap]
  simp [List.filterMap_map, r.read_data]

theorem filterMap_scenery (f : Frame) (caption axisTitle : String) :
    (f.scenery caption axisTitle).filterMap r.read = [] :=
  List.filterMap_eq_nil_iff.mpr fun shape hshape =>
    r.read_scenery shape (f.isScenery_scenery caption axisTitle shape hshape)

end Reading

namespace ChartData

variable (d : ChartData) (f : Frame)

theorem shapes_eq :
    d.shapes f = f.scenery d.title d.axisTitle ++ (f.curves d.series ++
      Legend.shapes f.plot d.series) := by
  rw [shapes, Frame.scenery, List.append_assoc]

theorem legendLast_shapes : LegendLast false (d.shapes f) := by
  have hscenery := f.isScenery_scenery d.title d.axisTitle
  have hcurves : ∀ shape ∈ f.curves d.series, shape.FitsIn false ∧ shape.isLegendBox = false :=
    f.forall_curves (fun _ _ => ⟨rfl, rfl⟩) d.series
  have hbefore : (f.scenery d.title d.axisTitle).any Shape.isLegendBox = false := by
    rw [List.any_eq_false]
    intro shape hshape
    rw [(hscenery shape hshape).not_box]
    exact Bool.false_ne_true
  have hnone : (f.curves d.series).any Shape.isLegendBox = false := by
    rw [List.any_eq_false]
    intro shape hshape
    rw [(hcurves shape hshape).2]
    exact Bool.false_ne_true
  rw [shapes_eq, legendLast_append, legendLast_append, hbefore, hnone]
  exact ⟨legendLast_of_forall fun shape hshape =>
    ⟨(hscenery shape hshape).fitsIn false, (hscenery shape hshape).not_box⟩,
    legendLast_of_forall hcurves, Legend.legendLast_shapes f.plot d.series⟩

theorem filterMap_shapes {α : Type} (r : Reading α) :
    (d.shapes f).filterMap r.read =
      (d.series.flatMap fun s => s.runs.filterMap fun run => r.data s run.length) ++
        (d.series.filter Series.isVisible).filterMap r.label ++
        (d.series.filter Series.isVisible).filterMap r.mark := by
  rw [shapes_eq, List.filterMap_append, List.filterMap_append, r.filterMap_scenery,
    r.filterMap_curves, r.filterMap_legend, Legend.entries_eq, List.nil_append, List.append_assoc]

/-- A chart has a document in a size if it has a frame, and then it is that of the shapes in it. -/
theorem document_eq_ok_iff {d : ChartData} {size : Size} {document : List Char} :
    d.document size = .ok document ↔
      ∃ frame, d.frame? size = some frame ∧ document = Drawing.svg ⟨size, d.shapes frame⟩ := by
  rw [ChartData.document, draw?]
  cases d.frame? size with
  | none => simp
  | some frame => simp [eq_comm]

end ChartData

/-- The colour and the length of data lines. -/
def Reading.lines : Reading (Color × Nat) where
  read := Shape.curveOf? .data
  data s length := some (s.color, length)
  label _ := none
  mark _ := none
  read_scenery _ h := h.not_data
  read_box _ _ _ _ := rfl
  read_data _ _ := rfl
  read_label _ _ := rfl
  read_mark _ _ _ := rfl

/-- The colour and the length of marks in the legend. -/
def Reading.marks : Reading (Color × Nat) where
  read := Shape.curveOf? .legendMark
  data _ _ := none
  label _ := none
  mark s := some (s.color, 2)
  read_scenery _ h := h.not_mark
  read_box _ _ _ _ := rfl
  read_data _ _ := rfl
  read_label _ _ := rfl
  read_mark _ _ _ := rfl

/-- The labels in the legend. -/
def Reading.labels : Reading String where
  read := Shape.textOf? .legendLabel
  data _ _ := none
  label s := some s.label
  mark _ := none
  read_scenery _ h := h.not_label
  read_box _ _ _ _ := rfl
  read_data _ _ := rfl
  read_label _ _ := rfl
  read_mark _ _ _ := rfl

namespace ChartData

variable (d : ChartData) (f : Frame)

theorem filterMap_lines :
    (d.shapes f).filterMap (Shape.curveOf? .data) =
      d.series.flatMap fun s => s.runs.map fun run => (s.color, run.length) := by
  have h := d.filterMap_shapes f .lines
  simpa [Reading.lines] using h

theorem filterMap_of_data {α : Type} {r : Reading α} (hdata : ∀ s length, r.data s length = none) :
    (d.shapes f).filterMap r.read =
      (d.series.filter Series.isVisible).filterMap r.label ++
        (d.series.filter Series.isVisible).filterMap r.mark := by
  have hlines : (d.series.flatMap fun s => s.runs.filterMap fun run => r.data s run.length) = [] :=
    List.flatMap_eq_nil_iff.mpr fun s _ => List.filterMap_eq_nil_iff.mpr fun run _ => hdata s _
  rw [filterMap_shapes, hlines, List.nil_append]

theorem filterMap_marks :
    (d.shapes f).filterMap (Shape.curveOf? .legendMark) =
      (d.series.filter Series.isVisible).map fun s => (s.color, 2) := by
  have h := d.filterMap_of_data (r := .marks) f fun _ _ => rfl
  simpa [Reading.marks] using h

theorem filterMap_labels :
    (d.shapes f).filterMap (Shape.textOf? .legendLabel) =
      (d.series.filter Series.isVisible).map Series.label := by
  have h := d.filterMap_of_data (r := .labels) f fun _ _ => rfl
  simpa [Reading.labels] using h

theorem sum_lengths (series : List Series) :
    ((series.flatMap fun s => s.runs.map fun run => (s.color, run.length)).map Prod.snd).sum =
      ((series.flatMap Series.points).filter DataPoint.isDrawable).length := by
  induction series with
  | nil => rfl
  | cons s series ih =>
      rw [List.flatMap_cons, List.map_append, List.sum_append, ih, List.flatMap_cons,
        List.filter_append, List.length_append, ← s.sum_length_runs, List.map_map]
      rfl

/-! ## Main result -/

/-- The document of a chart is that of a drawing with one line for each maximal run of points that
can be drawn, series by series, each in the colour of its series and with as many points as the run.
The legend has one label and one mark for each series with such a run, and no others. -/
theorem document_spec (size : Size) (document : List Char) (h : d.document size = .ok document) :
    ∃ drawing : Drawing, Drawing.ofSvg? document = some drawing ∧
      (∀ s ∈ d.series, AreMaximalRuns s.points s.runs) ∧
      drawing.curves .data =
        (d.series.flatMap fun s => s.runs.map fun run => (s.color, run.length)) ∧
      ((drawing.curves .data).map Prod.snd).sum =
        ((d.series.flatMap Series.points).filter DataPoint.isDrawable).length ∧
      drawing.texts .legendLabel = (d.series.filter Series.isVisible).map Series.label ∧
      (drawing.curves .legendMark).map Prod.fst =
        (d.series.filter Series.isVisible).map Series.color := by
  rw [ChartData.document] at h
  cases hdraw : d.draw? size with
  | none =>
      rw [hdraw] at h
      cases h
  | some drawing =>
      rw [hdraw] at h
      obtain rfl := Except.ok.inj h
      obtain ⟨frame, -, rfl⟩ := Option.map_eq_some_iff.mp hdraw
      refine ⟨_, ofSvg?_svg (d.legendLast_shapes frame), fun s _ => s.areMaximalRuns_runs,
        d.filterMap_lines frame, ?_, d.filterMap_labels frame, ?_⟩
      · rw [Drawing.curves, d.filterMap_lines frame, sum_lengths]
      · rw [Drawing.curves, d.filterMap_marks frame, List.map_map]
        rfl

/-- Gaps at both ends of a series and two in a row, a run of one point, and a series of gaps. -/
def gappyChart : ChartData where
  title := "gaps"
  axisTitle := ""
  series :=
    [⟨"first", ⟨255, 0, 0⟩,
        [⟨0, .nan⟩, ⟨1, 2⟩, ⟨2, .infinite false⟩, ⟨.nan, 1⟩, ⟨4, 3⟩, ⟨5, 1⟩, ⟨6, .nan⟩]⟩,
      ⟨"second", ⟨0, 0, 255⟩, [⟨1, .nan⟩, ⟨2, .infinite true⟩]⟩]

theorem document_spec_gappyChart :
    ∃ document drawing, gappyChart.document ⟨1600, 800⟩ = .ok document ∧
      Drawing.ofSvg? document = some drawing ∧
      drawing.curves .data = [(⟨255, 0, 0⟩, 1), (⟨255, 0, 0⟩, 2)] ∧
      drawing.texts .legendLabel = ["first"] ∧
      (drawing.curves .legendMark).map Prod.fst = [⟨255, 0, 0⟩] := by
  have hsome : (gappyChart.draw? ⟨1600, 800⟩).isSome := by decide +kernel
  obtain ⟨drawing, hdraw⟩ := Option.isSome_iff_exists.mp hsome
  have hdocument : gappyChart.document ⟨1600, 800⟩ = .ok drawing.svg := by
    rw [document, hdraw]
  obtain ⟨read, hread, -, hlines, -, hlabels, hmarks⟩ := document_spec gappyChart _ _ hdocument
  refine ⟨_, read, hdocument, hread, hlines.trans ?_, hlabels.trans ?_, hmarks.trans ?_⟩
  · decide +kernel
  · decide +kernel
  · decide +kernel

end ChartData

end TimingChart
