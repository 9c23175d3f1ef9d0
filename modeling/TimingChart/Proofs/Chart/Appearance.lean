import Mathlib.Data.List.Sort
import Mathlib.Logic.Relation
import TimingChart.Proofs.Chart.Lines

/-! # Charts that look the same

A document shows the title, the title of the axis, and of each series its label, its colour and its
runs. Nothing else of a chart has an influence on it, so what cannot be drawn shows nowhere. -/

namespace TimingChart

/-! ## Maximal runs are unique -/

section Unique

variable {points : List DataPoint} {runs runs' : List (List DataPoint)}

theorem AreMaximalRuns.unique (h : AreMaximalRuns points runs) (h' : AreMaximalRuns points runs') :
    runs = runs' := by
  obtain ⟨bounds, hmem, hordered, rfl⟩ := h
  obtain ⟨bounds', hmem', hordered', rfl⟩ := h'
  have hsorted : ∀ {bounds : List (Nat × Nat)},
      (∀ start stop, (start, stop) ∈ bounds ↔ IsMaximalRun points start stop) →
      bounds.Pairwise (fun a b => a.2 < b.1) → bounds.Pairwise (fun a b => a.1 < b.1) := by
    intro bounds hmem hordered
    refine hordered.imp_of_mem ?_
    rintro ⟨start, stop⟩ b ha - hlt
    exact ((hmem start stop).mp ha).start_lt.trans hlt
  have hirrefl : Std.Irrefl fun a b : Nat × Nat => a.1 < b.1 := ⟨fun a => Nat.lt_irrefl a.1⟩
  have hantisymm : Std.Antisymm fun a b : Nat × Nat => a.1 < b.1 :=
    ⟨fun _ _ hab hba => absurd hab (Nat.lt_asymm hba)⟩
  rw [List.Pairwise.eq_of_mem_iff (hsorted hmem hordered) (hsorted hmem' hordered')]
  rintro ⟨start, stop⟩
  rw [hmem, hmem']

end Unique

/-! ## Edits of the gaps -/

/-- A change to the points that cannot be drawn: one takes the place of another, one is there twice,
or one is added at either end. -/
inductive GapEdit : List DataPoint → List DataPoint → Prop where
  | replace {p q : DataPoint} {before after} (hp : ¬ p.isDrawable) (hq : ¬ q.isDrawable) :
      GapEdit (before ++ p :: after) (before ++ q :: after)
  | again {p : DataPoint} {before after} (hp : ¬ p.isDrawable) :
      GapEdit (before ++ p :: after) (before ++ p :: p :: after)
  | first {p : DataPoint} {points} (hp : ¬ p.isDrawable) : GapEdit points (p :: points)
  | last {p : DataPoint} {points} (hp : ¬ p.isDrawable) : GapEdit points (points ++ [p])

namespace Series

theorem cut_cons {p : DataPoint} (hp : ¬ p.isDrawable) (points : List DataPoint) :
    cut (p :: points) = [] :: cut points :=
  cut_append_cons (List.forall_mem_nil _) hp

/-- A point that cannot be drawn cuts wherever it is. -/
theorem cut_append {p : DataPoint} (hp : ¬ p.isDrawable) (before after : List DataPoint) :
    cut (before ++ p :: after) = cut before ++ cut after := by
  rcases exists_first_gap before with hall | ⟨run, q, rest, hbefore, hrun, hq⟩
  · rw [cut_append_cons hall hp, cut_of_forall hall, List.singleton_append]
  · have hshorter : rest.length < before.length := by
      rw [hbefore, List.length_append, List.length_cons]
      omega
    rw [hbefore, List.append_assoc, List.cons_append, cut_append_cons hrun hq,
      cut_append_cons hrun hq, cut_append hp rest after, List.cons_append]
termination_by before.length

/-- Such a change makes no run longer or shorter, and none appear or vanish. -/
theorem filter_cut_of_gapEdit {points points' : List DataPoint} (h : GapEdit points points') :
    (cut points).filter (fun run => !run.isEmpty) =
      (cut points').filter fun run => !run.isEmpty := by
  cases h with
  | replace hp hq => rw [cut_append hp, cut_append hq]
  | again hp =>
      rw [cut_append hp, cut_append hp, cut_cons hp]
      simp
  | first hp =>
      rw [cut_cons hp]
      simp
  | last hp =>
      rw [cut_append hp, cut]
      simp

/-- Nor does any number of them, or of changes back. -/
theorem filter_cut_of_eqvGen {points points' : List DataPoint}
    (h : Relation.EqvGen GapEdit points points') :
    (cut points).filter (fun run => !run.isEmpty) =
      (cut points').filter fun run => !run.isEmpty := by
  induction h with
  | rel _ _ hedit => exact filter_cut_of_gapEdit hedit
  | refl _ => rfl
  | symm _ _ _ ih => exact ih.symm
  | trans _ _ _ _ _ ih ih' => exact ih.trans ih'

/-! ## What is seen of a series -/

/-- What a chart shows of a series. -/
structure Look where
  label : String
  color : Color
  runs : List (List DataPoint)

def look (s : Series) : Look := ⟨s.label, s.color, s.runs⟩

/-- The series have the same label and colour, and the same maximal runs. -/
structure LooksLike (s t : Series) : Prop where
  label : s.label = t.label
  color : s.color = t.color
  runs : ∃ runs, AreMaximalRuns s.points runs ∧ AreMaximalRuns t.points runs

theorem LooksLike.look_eq {s t : Series} (h : s.LooksLike t) : s.look = t.look := by
  obtain ⟨runs, hs, ht⟩ := h.runs
  rw [look, look, h.label, h.color, s.areMaximalRuns_runs.unique hs,
    t.areMaximalRuns_runs.unique ht]

/-- The second series comes from the first one by changes to what cannot be drawn. -/
structure Regapped (s t : Series) : Prop where
  label : s.label = t.label
  color : s.color = t.color
  points : Relation.EqvGen GapEdit s.points t.points

theorem Regapped.looksLike {s t : Series} (h : s.Regapped t) : s.LooksLike t := by
  refine ⟨h.label, h.color, s.runs, s.areMaximalRuns_runs, ?_⟩
  rw [runs, filter_cut_of_eqvGen h.points]
  exact t.areMaximalRuns_runs

end Series

/-! ## What is drawn of all series -/

section Looks

variable {β : Type} {series series' : List Series}

/-- What depends on the looks only comes out the same, at every place in the list. -/
theorem map_zipIdx_congr {g : Series × Nat → β}
    (hg : ∀ s t i, s.look = t.look → g (s, i) = g (t, i))
    (h : series.map Series.look = series'.map Series.look) (k : Nat) :
    (series.zipIdx k).map g = (series'.zipIdx k).map g := by
  induction series generalizing series' k with
  | nil =>
      obtain rfl := List.map_eq_nil_iff.mp h.symm
      rfl
  | cons s series ih =>
      obtain ⟨t, series', rfl, ht, hseries⟩ := List.map_eq_cons_iff.mp h.symm
      rw [List.zipIdx_cons, List.zipIdx_cons, List.map_cons, List.map_cons,
        hg s t k ht.symm, ih hseries.symm (k + 1)]

theorem map_congr_look {g : Series → β} (hg : ∀ s t, s.look = t.look → g s = g t)
    (h : series.map Series.look = series'.map Series.look) : series.map g = series'.map g := by
  have hzip := map_zipIdx_congr (g := fun e => g e.1) (fun s t _ => hg s t) h 0
  have hfst : ∀ series : List Series, (series.zipIdx.map fun e => g e.1) = series.map g := by
    intro series
    conv_rhs => rw [← List.zipIdx_map_fst 0 series, List.map_map]
    rfl
  rwa [hfst, hfst] at hzip

theorem flatMap_congr_look {g : Series → List β} (hg : ∀ s t, s.look = t.look → g s = g t)
    (h : series.map Series.look = series'.map Series.look) :
    series.flatMap g = series'.flatMap g := by
  rw [List.flatMap_def, List.flatMap_def, map_congr_look hg h]

variable (h : series.map Series.look = series'.map Series.look)
include h

theorem drawable_congr :
    (series.flatMap Series.points).filter DataPoint.isDrawable =
      (series'.flatMap Series.points).filter DataPoint.isDrawable := by
  rw [List.filter_flatMap, List.filter_flatMap]
  refine flatMap_congr_look ?_ h
  intro s t hlook
  rw [← s.flatten_runs, ← t.flatten_runs]
  exact congrArg (fun l => l.runs.flatten) hlook

theorem Frame.curves_congr (f : Frame) : f.curves series = f.curves series' := by
  refine flatMap_congr_look ?_ h
  intro s t hlook
  injection hlook with hlabel hcolor hruns
  rw [hcolor, hruns]

namespace Legend

-- The estimate of a width is not to be evaluated.
attribute [local irreducible] labelWidth

theorem entries_congr :
    (entries series).map Series.look = (entries series').map Series.look := by
  have hlooks : ∀ series : List Series, (entries series).map Series.look =
      (series.map Series.look).filter fun l => !l.runs.isEmpty := by
    intro series
    rw [List.filter_map]
    rfl
  rw [hlooks, h, ← hlooks]

theorem width_congr : width series = width series' := by
  rw [width, width, map_congr_look ?_ h]
  intro s t hlook
  injection hlook with hlabel hcolor hruns
  rw [hlabel]

theorem isEmpty_congr : series.isEmpty = series'.isEmpty := by
  rw [← List.isEmpty_map (f := Series.look), h, List.isEmpty_map]

theorem height_congr : height series = height series' := by
  have hlength : series.length = series'.length := by
    rw [← List.length_map Series.look, h, List.length_map]
  rw [height, height, isEmpty_congr h, hlength]

theorem shapes_congr (plot : Area) : shapes plot series = shapes plot series' := by
  have hentries := entries_congr h
  simp only [shapes, isEmpty_congr h, width_congr hentries, height_congr hentries]
  split
  · rfl
  · congr 1
    · congr 1
      refine map_zipIdx_congr ?_ hentries 0
      intro s t i hlook
      injection hlook with hlabel hcolor hruns
      dsimp only
      rw [hlabel]
    · refine map_zipIdx_congr ?_ hentries 0
      intro s t i hlook
      injection hlook with hlabel hcolor hruns
      dsimp only
      rw [hcolor]

end Legend

end Looks

/-! ## Main result -/

namespace ChartData

/-- The charts have the same titles and series that look alike, one by one. -/
structure LooksLike (d e : ChartData) : Prop where
  title : d.title = e.title
  axisTitle : d.axisTitle = e.axisTitle
  series : List.Forall₂ Series.LooksLike d.series e.series

/-- The second chart comes from the first one by changes to what cannot be drawn. -/
structure Regapped (d e : ChartData) : Prop where
  title : d.title = e.title
  axisTitle : d.axisTitle = e.axisTitle
  series : List.Forall₂ Series.Regapped d.series e.series

theorem Regapped.looksLike {d e : ChartData} (h : d.Regapped e) : d.LooksLike e :=
  ⟨h.title, h.axisTitle, h.series.imp fun _ _ => Series.Regapped.looksLike⟩

theorem LooksLike.map_look {d e : ChartData} (h : d.LooksLike e) :
    d.series.map Series.look = e.series.map Series.look := by
  have hlooks := h.series.imp fun _ _ => Series.LooksLike.look_eq
  rwa [← List.forall₂_eq_eq_eq, List.forall₂_map_left_iff, List.forall₂_map_right_iff]

/-- Charts that look alike have the same drawing. -/
theorem LooksLike.draw?_eq {d e : ChartData} (h : d.LooksLike e) (size : Size) :
    d.draw? size = e.draw? size := by
  have hlooks := h.map_look
  have hdrawable : d.drawable = e.drawable := drawable_congr hlooks
  have hframe : d.frame? size = e.frame? size := by
    rw [frame?, frame?, xRange, yRange, xRange, yRange, hdrawable]
  have hshapes : d.shapes = e.shapes := by
    funext f
    rw [shapes, shapes, h.title, h.axisTitle, f.curves_congr hlooks, Legend.shapes_congr hlooks]
  rw [draw?, draw?, hframe, hshapes]

/-- Charts that look alike have the same document in every size, or fail alike, and charts that
differ in their gaps only look alike. -/
theorem document_congr {d e : ChartData} (size : Size) (h : d.LooksLike e ∨ d.Regapped e) :
    d.document size = e.document size := by
  have hlooksLike : d.LooksLike e := h.elim id Regapped.looksLike
  rw [document, document, hlooksLike.draw?_eq]

/-- The chart with gaps, with fewer of them at the ends and in the middle. -/
def regappedChart : ChartData where
  title := gappyChart.title
  axisTitle := gappyChart.axisTitle
  series :=
    [⟨"first", ⟨255, 0, 0⟩, [⟨1, 2⟩, ⟨2, .nan⟩, ⟨4, 3⟩, ⟨5, 1⟩, ⟨6, .infinite true⟩, ⟨.nan, 7⟩]⟩,
      ⟨"second", ⟨0, 0, 255⟩, []⟩]

/-- One gap after the other is changed. -/
theorem regapped_regappedChart : gappyChart.Regapped regappedChart := by
  have hinfinite : ¬ (⟨2, .infinite false⟩ : DataPoint).isDrawable := by decide +kernel
  have hfirst : Relation.EqvGen GapEdit
      [⟨0, .nan⟩, ⟨1, 2⟩, ⟨2, .infinite false⟩, ⟨.nan, 1⟩, ⟨4, 3⟩, ⟨5, 1⟩, ⟨6, .nan⟩]
      [⟨1, 2⟩, ⟨2, .nan⟩, ⟨4, 3⟩, ⟨5, 1⟩, ⟨6, .infinite true⟩, ⟨.nan, 7⟩] := by
    -- the first gap goes, the two in the middle become one, and there is one more at the end
    refine .trans _ _ _ (.symm _ _ (.rel _ _ (.first (by decide +kernel)))) ?_
    refine .trans _ _ _ (.rel _ _ (@GapEdit.replace _ _ [⟨1, 2⟩, ⟨2, .infinite false⟩] _
      (by decide +kernel) hinfinite)) ?_
    refine .trans _ _ _ (.symm _ _ (.rel _ _ (@GapEdit.again _ [⟨1, 2⟩] _ hinfinite))) ?_
    refine .trans _ _ _ (.rel _ _ (@GapEdit.replace _ ⟨2, .nan⟩ [⟨1, 2⟩] _ hinfinite
      (by decide +kernel))) ?_
    refine .trans _ _ _ (.rel _ _ (@GapEdit.replace _ ⟨6, .infinite true⟩
      [⟨1, 2⟩, ⟨2, .nan⟩, ⟨4, 3⟩, ⟨5, 1⟩] [] (by decide +kernel) (by decide +kernel))) ?_
    exact .rel _ _ (.last (by decide +kernel))
  have hsecond : Relation.EqvGen GapEdit [⟨1, .nan⟩, ⟨2, .infinite true⟩] [] := by
    refine .trans _ _ _ (.symm _ _ (.rel _ _ (.first (by decide +kernel)))) ?_
    exact .symm _ _ (.rel _ _ (.first (by decide +kernel)))
  exact ⟨rfl, rfl, .cons ⟨rfl, rfl, hfirst⟩ (.cons ⟨rfl, rfl, hsecond⟩ .nil)⟩

theorem document_congr_regappedChart :
    (gappyChart.LooksLike regappedChart ∧
      ∃ document, gappyChart.document ⟨1600, 800⟩ = .ok document ∧
        regappedChart.document ⟨1600, 800⟩ = .ok document) ∧
    gappyChart.Regapped regappedChart ∧
      gappyChart.document ⟨640, 480⟩ = regappedChart.document ⟨640, 480⟩ := by
  have hruns : List.Forall₂ (fun s t : Series => s.label = t.label ∧ s.color = t.color ∧
      s.runs = t.runs) gappyChart.series regappedChart.series := by
    refine .cons ⟨rfl, rfl, ?_⟩ (.cons ⟨rfl, rfl, ?_⟩ .nil) <;> decide +kernel
  have hlooksLike : gappyChart.LooksLike regappedChart := by
    refine ⟨rfl, rfl, hruns.imp ?_⟩
    rintro s t ⟨hlabel, hcolor, hruns⟩
    exact ⟨hlabel, hcolor, s.runs, s.areMaximalRuns_runs, hruns ▸ t.areMaximalRuns_runs⟩
  have hsome : (gappyChart.draw? ⟨1600, 800⟩).isSome := by decide +kernel
  obtain ⟨drawing, hdraw⟩ := Option.isSome_iff_exists.mp hsome
  have hdocument : gappyChart.document ⟨1600, 800⟩ = .ok drawing.svg := by
    rw [document, hdraw]
  refine ⟨⟨hlooksLike, drawing.svg, hdocument, ?_⟩, regapped_regappedChart,
    document_congr _ (.inr regapped_regappedChart)⟩
  rw [← document_congr _ (.inl hlooksLike), hdocument]

end ChartData

end TimingChart
