import TimingChart.Bench.Table

/-! # Tables by column and by row

A table that was built run by run has the values of all runs in each of its columns, and reading it
row by row gives the runs back. -/

namespace TimingChart

namespace Table

/-- The columns of a table hold the values of these runs, in order. -/
structure HoldsRuns (t : Table) (runs : List Record) : Prop where
  rows1 : t.rows1 = (runs.map Record.rows1).toArray
  cols1 : t.cols1 = (runs.map Record.cols1).toArray
  cols2 : t.cols2 = (runs.map Record.cols2).toArray
  threads : t.threads = (runs.map Record.threads).toArray
  timeScalar : t.timeScalar = (runs.map Record.timeScalar).toArray
  timeSimd : t.timeSimd = (runs.map Record.timeSimd).toArray
  timeMkl : t.timeMkl = (runs.map Record.timeMkl).toArray
  improvement : t.improvement = (runs.map Record.improvement).toArray

variable {t u : Table} {runs : List Record}

theorem holdsRuns_empty : empty.HoldsRuns [] :=
  ⟨rfl, rfl, rfl, rfl, rfl, rfl, rfl, rfl⟩

theorem HoldsRuns.push (h : t.HoldsRuns runs) (r : Record) :
    (t.push r).HoldsRuns (runs ++ [r]) := by
  constructor <;> simp [Table.push, h.rows1, h.cols1, h.cols2, h.threads, h.timeScalar,
    h.timeSimd, h.timeMkl, h.improvement]

theorem HoldsRuns.foldl_push (h : t.HoldsRuns runs) (more : List Record) :
    (more.foldl Table.push t).HoldsRuns (runs ++ more) := by
  induction more generalizing t runs with
  | nil => simpa using h
  | cons r more ih =>
      have hrest := ih (h.push r)
      simpa using hrest

theorem holdsRuns_ofList (runs : List Record) : (ofList runs).HoldsRuns runs :=
  holdsRuns_empty.foldl_push runs

/-- The runs determine the table. -/
theorem HoldsRuns.eq_ofList (h : t.HoldsRuns runs) : t = ofList runs := by
  have hlist := holdsRuns_ofList runs
  cases t
  cases hu : ofList runs
  rw [hu] at hlist
  simp only [mk.injEq]
  exact ⟨h.rows1.trans hlist.rows1.symm, h.cols1.trans hlist.cols1.symm,
    h.cols2.trans hlist.cols2.symm, h.threads.trans hlist.threads.symm,
    h.timeScalar.trans hlist.timeScalar.symm, h.timeSimd.trans hlist.timeSimd.symm,
    h.timeMkl.trans hlist.timeMkl.symm, h.improvement.trans hlist.improvement.symm⟩

theorem HoldsRuns.record? (h : t.HoldsRuns runs) (row : Nat) : t.record? row = runs[row]? := by
  simp only [Table.record?, h.rows1, h.cols1, h.cols2, h.threads, h.timeScalar, h.timeSimd,
    h.timeMkl, h.improvement, List.getElem?_toArray, List.getElem?_map]
  cases runs[row]? <;> rfl

theorem filterMap_getElem?_range {α : Type} (items : List α) :
    (List.range items.length).filterMap (fun i => items[i]?) = items := by
  induction items with
  | nil => rfl
  | cons a items ih =>
      rw [List.length_cons, List.range_succ_eq_map, List.filterMap_cons]
      simpa [List.filterMap_map, Function.comp_def] using ih

theorem HoldsRuns.records_eq (h : t.HoldsRuns runs) : t.records = runs := by
  have hsize : t.size = runs.length := by simp [size, h.rows1]
  have hrows : t.record? = fun row => runs[row]? := funext h.record?
  rw [records, hsize, hrows, filterMap_getElem?_range]

end Table

end TimingChart
