import Mathlib.Tactic.ByContra
import TimingChart.Chart.Series

/-! # Runs between gaps

The runs of a series are the longest stretches of points that can be drawn, each of them once and in
order. Together they hold every point that can be drawn. -/

namespace TimingChart

/-- The points from `start` up to `stop` can be drawn, and their neighbours, if any, cannot. -/
structure IsMaximalRun (points : List DataPoint) (start stop : Nat) : Prop where
  start_lt : start < stop
  stop_le : stop ≤ points.length
  inside : ∀ i p, start ≤ i → i < stop → points[i]? = some p → p.isDrawable
  before : ∀ i p, i + 1 = start → points[i]? = some p → ¬ p.isDrawable
  after : ∀ p, points[stop]? = some p → ¬ p.isDrawable

/-- The runs are what lies between the bounds of all maximal runs, in order. -/
def AreMaximalRuns (points : List DataPoint) (runs : List (List DataPoint)) : Prop :=
  ∃ bounds : List (Nat × Nat),
    (∀ start stop, (start, stop) ∈ bounds ↔ IsMaximalRun points start stop) ∧
    bounds.Pairwise (fun a b => a.2 < b.1) ∧
    runs = bounds.map fun b => (points.drop b.1).take (b.2 - b.1)

/-! ## Where the runs are -/

section Split

variable {run rest points : List DataPoint} {q : DataPoint}

theorem isMaximalRun_of_forall (h : ∀ p ∈ points, p.isDrawable) (start stop : Nat) :
    IsMaximalRun points start stop ↔ points ≠ [] ∧ start = 0 ∧ stop = points.length := by
  constructor
  · intro hrun
    have hlt := hrun.start_lt
    have hle := hrun.stop_le
    have hstart : start = 0 := by
      by_contra hpositive
      have hi : start - 1 < points.length := by omega
      exact hrun.before (start - 1) points[start - 1] (by omega) (List.getElem?_eq_getElem hi)
        (h _ (List.getElem_mem hi))
    have hstop : stop = points.length := by
      by_contra hshort
      have hi : stop < points.length := by omega
      exact hrun.after points[stop] (List.getElem?_eq_getElem hi) (h _ (List.getElem_mem hi))
    refine ⟨?_, hstart, hstop⟩
    intro heq
    subst heq
    rw [List.length_nil] at hle
    omega
  · intro h
    rcases h with ⟨hne, rfl, rfl⟩
    refine ⟨List.length_pos_iff.mpr hne, Nat.le_refl _, ?_, ?_, ?_⟩
    · intro i p _ _ hp
      exact h p (List.mem_of_getElem? hp)
    · intro i p hi
      omega
    · intro p hp
      simp at hp

theorem getElem?_behind (run : List DataPoint) (q : DataPoint) (rest : List DataPoint) (i : Nat) :
    (run ++ q :: rest)[i + (run.length + 1)]? = rest[i]? := by
  rw [List.getElem?_append_right (by omega),
    show i + (run.length + 1) - run.length = i + 1 by omega, List.getElem?_cons_succ]

theorem getElem?_at (run : List DataPoint) (q : DataPoint) (rest : List DataPoint) :
    (run ++ q :: rest)[run.length]? = some q := by
  rw [List.getElem?_append_right (Nat.le_refl _), Nat.sub_self, List.getElem?_cons_zero]

theorem exists_drawable (hrun : ∀ p ∈ run, p.isDrawable) {i : Nat} (hi : i < run.length) :
    ∃ p, (run ++ rest)[i]? = some p ∧ p.isDrawable := by
  refine ⟨run[i], ?_, hrun _ (List.getElem_mem hi)⟩
  rw [List.getElem?_append_left hi, List.getElem?_eq_getElem hi]

/-- In front of the first point that cannot be drawn, all points are one run. -/
theorem isMaximalRun_front_iff (hrun : ∀ p ∈ run, p.isDrawable) (hq : ¬ q.isDrawable)
    {start stop : Nat} (hfront : stop ≤ run.length) :
    IsMaximalRun (run ++ q :: rest) start stop ↔
      run ≠ [] ∧ start = 0 ∧ stop = run.length := by
  constructor
  · intro h
    have hlt := h.start_lt
    have hstart : start = 0 := by
      by_contra hpositive
      obtain ⟨p, hp, hdrawable⟩ := exists_drawable hrun (by omega : start - 1 < run.length)
      exact h.before (start - 1) p (by omega) hp hdrawable
    have hstop : stop = run.length := by
      by_contra hshort
      obtain ⟨p, hp, hdrawable⟩ := exists_drawable hrun (by omega : stop < run.length)
      exact h.after p hp hdrawable
    refine ⟨?_, hstart, hstop⟩
    rintro rfl
    rw [List.length_nil] at hstop
    omega
  · rintro ⟨hne, rfl, rfl⟩
    refine ⟨List.length_pos_iff.mpr hne, by simp, ?_, by omega, ?_⟩
    · intro i p _ hi hp
      obtain ⟨p', hp', hdrawable⟩ := exists_drawable hrun hi
      rw [hp'] at hp
      exact Option.some.inj hp ▸ hdrawable
    · intro p hp
      rw [getElem?_at] at hp
      exact Option.some.inj hp ▸ hq

/-- Behind it, runs are those of the points there. -/
theorem isMaximalRun_behind_iff (hq : ¬ q.isDrawable) (a b : Nat) :
    IsMaximalRun (run ++ q :: rest) (a + (run.length + 1)) (b + (run.length + 1)) ↔
      IsMaximalRun rest a b := by
  constructor
  · intro h
    have hlt := h.start_lt
    have hle := h.stop_le
    rw [List.length_append, List.length_cons] at hle
    refine ⟨by omega, by omega, fun i p hai hib hp => ?_, fun i p hia hp => ?_, fun p hp => ?_⟩
    · exact h.inside (i + (run.length + 1)) p (by omega) (by omega) (by rw [getElem?_behind, hp])
    · exact h.before (i + (run.length + 1)) p (by omega) (by rw [getElem?_behind, hp])
    · exact h.after p (by rw [getElem?_behind, hp])
  · intro h
    have hlt := h.start_lt
    have hle := h.stop_le
    refine ⟨by omega, ?_, fun i p hi hi' hp => ?_, fun i p hi hp => ?_, fun p hp => ?_⟩
    · rw [List.length_append, List.length_cons]
      omega
    · obtain ⟨j, rfl⟩ := Nat.exists_eq_add_of_le' (by omega : run.length + 1 ≤ i)
      rw [getElem?_behind] at hp
      exact h.inside j p (by omega) (by omega) hp
    · rcases Nat.eq_zero_or_pos a with rfl | hpositive
      · obtain rfl : i = run.length := by omega
        rw [getElem?_at] at hp
        exact Option.some.inj hp ▸ hq
      · obtain ⟨j, rfl⟩ := Nat.exists_eq_add_of_le' (by omega : run.length + 1 ≤ i)
        rw [getElem?_behind] at hp
        exact h.before j p (by omega) hp
    · rw [getElem?_behind] at hp
      exact h.after p hp

/-- The first point that cannot be drawn ends a run, and begins a new search. -/
theorem isMaximalRun_append_cons (hrun : ∀ p ∈ run, p.isDrawable) (hq : ¬ q.isDrawable)
    (start stop : Nat) :
    IsMaximalRun (run ++ q :: rest) start stop ↔
      (run ≠ [] ∧ start = 0 ∧ stop = run.length) ∨
      ∃ a b, IsMaximalRun rest a b ∧ start = a + (run.length + 1) ∧
        stop = b + (run.length + 1) := by
  constructor
  · intro h
    have hlt := h.start_lt
    have hle := h.stop_le
    rw [List.length_append, List.length_cons] at hle
    -- the point that cannot be drawn is in no run
    have hapart : stop ≤ run.length ∨ run.length < start := by
      by_contra hinside
      exact hq (h.inside run.length q (by omega) (by omega) (getElem?_at run q rest))
    rcases hapart with hfirst | hlater
    · exact .inl ((isMaximalRun_front_iff hrun hq hfirst).mp h)
    · obtain ⟨a, rfl⟩ := Nat.exists_eq_add_of_le' (by omega : run.length + 1 ≤ start)
      obtain ⟨b, rfl⟩ := Nat.exists_eq_add_of_le' (by omega : run.length + 1 ≤ stop)
      exact .inr ⟨a, b, (isMaximalRun_behind_iff hq a b).mp h, rfl, rfl⟩
  · rintro (hfirst | ⟨a, b, h, rfl, rfl⟩)
    · exact (isMaximalRun_front_iff hrun hq (Nat.le_of_eq hfirst.2.2)).mpr hfirst
    · exact (isMaximalRun_behind_iff hq a b).mpr h

/-! ## Cutting -/

/-- Either all points can be drawn, or there is a first one that cannot. -/
theorem exists_first_gap (points : List DataPoint) :
    (∀ p ∈ points, p.isDrawable) ∨
      ∃ run q rest, points = run ++ q :: rest ∧ (∀ p ∈ run, p.isDrawable) ∧
        ¬ q.isDrawable := by
  induction points with
  | nil => exact .inl (by simp)
  | cons p points ih =>
      by_cases hp : p.isDrawable
      · rcases ih with hall | ⟨run, q, rest, rfl, hrun, hq⟩
        · exact .inl (List.forall_mem_cons.mpr ⟨hp, hall⟩)
        · exact .inr ⟨p :: run, q, rest, rfl, List.forall_mem_cons.mpr ⟨hp, hrun⟩, hq⟩
      · exact .inr ⟨[], p, points, rfl, by simp, hp⟩

namespace Series

theorem cut_of_forall (h : ∀ p ∈ points, p.isDrawable) : cut points = [points] := by
  induction points with
  | nil => rfl
  | cons p points ih =>
      obtain ⟨hp, hpoints⟩ := List.forall_mem_cons.mp h
      simp only [cut, if_pos hp, ih hpoints]

theorem cut_append_cons (hrun : ∀ p ∈ run, p.isDrawable) (hq : ¬ q.isDrawable) :
    cut (run ++ q :: rest) = run :: cut rest := by
  induction run with
  | nil => simp only [List.nil_append, cut, if_neg hq]
  | cons p run ih =>
      obtain ⟨hp, hrun⟩ := List.forall_mem_cons.mp hrun
      simp only [List.cons_append, cut, if_pos hp, ih hrun]

end Series

/-- The bounds of a run at the very start, if it has any points. -/
def leadingBounds (run : List DataPoint) : List (Nat × Nat) :=
  if run.isEmpty then [] else [(0, run.length)]

theorem mem_leadingBounds {start stop : Nat} :
    (start, stop) ∈ leadingBounds run ↔ run ≠ [] ∧ start = 0 ∧ stop = run.length := by
  cases run <;> simp [leadingBounds]

theorem map_leadingBounds (run rest : List DataPoint) :
    (leadingBounds run).map (fun b => ((run ++ rest).drop b.1).take (b.2 - b.1)) =
      [run].filter fun run => !run.isEmpty := by
  cases run <;> simp [leadingBounds]

/-- Cutting at the points that cannot be drawn, and leaving out what is empty, gives the maximal
runs. -/
theorem areMaximalRuns_filter_cut (points : List DataPoint) :
    AreMaximalRuns points ((Series.cut points).filter fun run => !run.isEmpty) := by
  rcases exists_first_gap points with hall | ⟨run, q, rest, hpoints, hrun, hq⟩
  · refine ⟨leadingBounds points, ?_, ?_, ?_⟩
    · intro start stop
      rw [mem_leadingBounds, isMaximalRun_of_forall hall]
    · rw [leadingBounds]
      split <;> simp
    · have hmap := map_leadingBounds points []
      rw [List.append_nil] at hmap
      rw [Series.cut_of_forall hall, hmap]
  · have hshorter : rest.length < points.length := by
      rw [hpoints, List.length_append, List.length_cons]
      omega
    obtain ⟨bounds, hmem, hordered, hruns⟩ := areMaximalRuns_filter_cut rest
    rw [hpoints]
    refine ⟨leadingBounds run ++
      bounds.map fun b => (b.1 + (run.length + 1), b.2 + (run.length + 1)), ?_, ?_, ?_⟩
    · intro start stop
      rw [isMaximalRun_append_cons hrun hq, List.mem_append, mem_leadingBounds, List.mem_map]
      apply or_congr_right
      constructor
      · intro h
        rcases h with ⟨⟨a, b⟩, hab, heq⟩
        rw [Prod.mk.injEq] at heq
        exact ⟨a, b, (hmem a b).mp hab, heq.1.symm, heq.2.symm⟩
      · intro h
        rcases h with ⟨a, b, hab, rfl, rfl⟩
        exact ⟨(a, b), (hmem a b).mpr hab, rfl⟩
    · rw [List.pairwise_append, List.pairwise_map]
      refine ⟨?_, hordered.imp fun h => by omega, ?_⟩
      · rw [leadingBounds]
        split <;> simp
      · rintro ⟨start, stop⟩ hfirst _ hlater
        obtain ⟨-, -, rfl⟩ := mem_leadingBounds.mp hfirst
        obtain ⟨b, -, rfl⟩ := List.mem_map.mp hlater
        dsimp only
        omega
    · rw [Series.cut_append_cons hrun hq, List.map_append, map_leadingBounds, List.map_map,
        ← List.singleton_append, List.filter_append, hruns]
      congr 1
      apply List.map_congr_left
      intro b _
      have hdrop : (run ++ q :: rest).drop (b.1 + (run.length + 1)) = rest.drop b.1 := by
        rw [Nat.add_comm, Nat.add_assoc, List.drop_length_add_append, Nat.add_comm,
          List.drop_succ_cons]
      rw [Function.comp_apply, hdrop]
      congr 1
      omega
termination_by points.length

end Split

namespace Series

/-- The runs hold all points that can be drawn, in order. -/
theorem flatten_runs (s : Series) : s.runs.flatten = s.points.filter DataPoint.isDrawable := by
  have hcut : ∀ points : List DataPoint,
      (cut points).flatten = points.filter DataPoint.isDrawable := by
    intro points
    induction points with
    | nil => rfl
    | cons p points ih =>
        rw [cut]
        split
        next hp =>
          cases hparts : cut points with
          | nil =>
              rw [hparts] at ih
              simp [List.filter_cons_of_pos hp, ← ih]
          | cons part parts =>
              rw [hparts] at ih
              simp [List.filter_cons_of_pos hp, ← ih]
        next hp =>
          simpa [List.filter_cons_of_neg hp] using ih
  rw [← hcut, runs]
  induction cut s.points with
  | nil => rfl
  | cons run runs ih =>
      cases run <;> simp [ih]

theorem areMaximalRuns_runs (s : Series) : AreMaximalRuns s.points s.runs :=
  areMaximalRuns_filter_cut s.points

end Series

end TimingChart
