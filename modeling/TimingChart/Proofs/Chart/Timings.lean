import TimingChart.Chart.Series
import TimingChart.Proofs.Bench.Sessions
import TimingChart.Proofs.Binary64.Nearest

/-! # Timings against a column

A chart of a table has three lines with a point for each row. The sizes become the nearest
doubles, which keeps them exact as far as doubles can hold them, and in order everywhere; timings
are taken as they are. -/

namespace TimingChart

/-! ## Sizes as doubles -/

namespace Binary64

/-- The sign bit matters for zeros alone. -/
theorem nearest_eq_of_ne_zero {q : Rat} (hq : q ≠ 0) (s t : Bool) : nearest s q = nearest t q := by
  have hnum : q.num ≠ 0 := Rat.num_ne_zero.mpr hq
  rw [nearest, nearest, if_neg hnum, if_neg hnum]

theorem hasSign_intCast (n : Int) : HasSign (decide (n < 0)) n := by
  rcases lt_or_ge n 0 with hneg | hpos
  · rw [decide_eq_true hneg]
    exact Int.cast_nonpos.mpr hneg.le
  · rw [decide_eq_false hpos.not_gt]
    exact Int.cast_nonneg hpos

theorem isNearest_intCast_iff {n : Int} {x : Binary64} :
    IsNearest (decide (n < 0)) n x ↔ x = ofInt n := by
  rw [isNearest_iff (hasSign_intCast n), ofInt]
  by_cases hn : n = 0
  · subst hn
    rfl
  · rw [nearest_eq_of_ne_zero (Int.cast_ne_zero.mpr hn) (decide (n < 0)) false]

theorem isFinite_ofInt {n : Int} (hn : n.natAbs ≤ 0x8000000000000000) : (ofInt n).isFinite := by
  rw [(isNearest_intCast_iff.mpr rfl).isFinite_iff]
  calc |(n : Rat)| = (n.natAbs : Rat) := by rw [Nat.cast_natAbs, Int.cast_abs]
    _ ≤ 0x8000000000000000 := by exact_mod_cast hn
    _ = 2 ^ 53 * 2 ^ 10 := by norm_num
    _ < (2 ^ 54 - 1) * 2 ^ 970 := by gcongr <;> norm_num

end Binary64

/-! ## Columns of sizes -/

/-- The column that a mode names. -/
inductive Mode.Names : Mode → (Table → Array Int64) → Prop where
  | rows1 : Names .rows1 Table.rows1
  | cols1 : Names .cols1 Table.cols1
  | cols2 : Names .cols2 Table.cols2
  | threads : Names .threads Table.threads

theorem Mode.names_column (mode : Mode) : mode.Names mode.column := by
  cases mode with
  | rows1 => exact .rows1
  | cols1 => exact .cols1
  | cols2 => exact .cols2
  | threads => exact .threads

/-! ## Lines -/

/-- A line has a point for each row, with the size as a double and the timing as it is. -/
structure Series.Plots (s : Series) (rows : Nat) (xs : Array Int64) (ys : Array Binary64) :
    Prop where
  length_eq : s.points.length = rows
  point_eq : ∀ row < rows, ∃ x y, xs[row]? = some x ∧ ys[row]? = some y ∧
    s.points[row]? = some ⟨.ofInt x.toInt, y⟩

namespace ChartData

theorem plots_timings {rows : Nat} {xs : Array Int64} {ys : Array Binary64} (hxs : xs.size = rows)
    (hys : ys.size = rows) (label : String) (color : Color) :
    (timings label color xs ys).Plots rows xs ys := by
  constructor
  case length_eq => simp [timings, hxs, hys]
  case point_eq =>
    intro row hrow
    have hx : row < xs.size := hxs ▸ hrow
    have hy : row < ys.size := hys ▸ hrow
    exact ⟨xs[row], ys[row], by simp [hx], by simp [hy], by simp [timings, hx, hy]⟩

/-- A chart of a table has three lines with the timings of all rows against the column that the mode
names, whose sizes of 64 bits are rounded to the nearest doubles. No other columns of sizes matter,
nor does the improvement, and without a mode there is nothing to draw. -/
theorem ofTable_spec (t : Table) (hsizes : ∀ n ∈ t.columnSizes, n = t.size) (mode : Mode)
    (title : String) :
    (∃ sizes, mode.Names sizes ∧
      (∃ scalar simd mkl, (ofTable t (some mode) title).series = [scalar, simd, mkl] ∧
        (scalar.label = "Scalar Mult" ∧ scalar.color = ⟨255, 0, 0⟩ ∧
          scalar.Plots t.size (sizes t) t.timeScalar) ∧
        (simd.label = "SIMD Mult" ∧ simd.color = ⟨0, 0, 255⟩ ∧
          simd.Plots t.size (sizes t) t.timeSimd) ∧
        (mkl.label = "MKL Mult" ∧ mkl.color = ⟨0, 255, 0⟩ ∧
          mkl.Plots t.size (sizes t) t.timeMkl)) ∧
      ∀ u : Table, sizes u = sizes t → u.timeScalar = t.timeScalar → u.timeSimd = t.timeSimd →
        u.timeMkl = t.timeMkl → ofTable u (some mode) title = ofTable t (some mode) title) ∧
    (∀ size : Int64, (Binary64.ofInt size.toInt).isFinite ∧
      (∀ x, Binary64.IsNearest (decide (size.toInt < 0)) size.toInt x ↔ x = .ofInt size.toInt) ∧
      (size.toInt.natAbs ≤ 2 ^ 53 → (Binary64.ofInt size.toInt).toRat = size.toInt) ∧
      ∀ other : Int64, size.toInt ≤ other.toInt →
        Binary64.ofInt size.toInt ≤ Binary64.ofInt other.toInt) ∧
    ∀ u : Table, (ofTable u none title).series = [] ∧ (ofTable u none title).axisTitle = "" := by
  have hcolumn : (mode.column t).size = t.size := by
    cases mode <;> exact hsizes _ (by simp [Table.columnSizes, Mode.column])
  have hscalar : t.timeScalar.size = t.size := hsizes _ (by simp [Table.columnSizes])
  have hsimd : t.timeSimd.size = t.size := hsizes _ (by simp [Table.columnSizes])
  have hmkl : t.timeMkl.size = t.size := hsizes _ (by simp [Table.columnSizes])
  refine ⟨⟨mode.column, mode.names_column, ⟨_, _, _, rfl, ⟨rfl, rfl, ?_⟩, ⟨rfl, rfl, ?_⟩,
    ⟨rfl, rfl, ?_⟩⟩, ?_⟩, fun size => ?_, fun u => ⟨rfl, rfl⟩⟩
  · exact plots_timings hcolumn hscalar _ _
  · exact plots_timings hcolumn hsimd _ _
  · exact plots_timings hcolumn hmkl _ _
  · intro u hmode hscalar hsimd hmkl
    rw [ofTable, ofTable, hmode, hscalar, hsimd, hmkl]
  · have hlow : -0x8000000000000000 ≤ size.toInt := Int64.le_toInt size
    have hhigh : size.toInt < 0x8000000000000000 := Int64.toInt_lt size
    refine ⟨Binary64.isFinite_ofInt (by omega), fun x => Binary64.isNearest_intCast_iff, ?_, ?_⟩
    · intro hexact
      exact (Binary64.ofInt_spec hexact).2
    · intro other hle
      exact Binary64.nearest_mono false false (Int.cast_le.mpr hle)

/-- Two rows with sizes in one column that no double tells apart, and timings that cannot be
drawn. -/
def crowdedTable : Table :=
  .ofList [⟨1, 2, 9007199254740993, 4, .nan, 1, .infinite true, 2⟩,
    ⟨8, 7, 9007199254740992, 5, 3, 1, 2, .nan⟩]

/-- The size in its first row, as a double. -/
def crowdedSize : Mode → Binary64
  | .rows1 => 1
  | .cols1 => 2
  | .cols2 => 9007199254740992
  | .threads => 4

theorem ofTable_spec_crowdedTable :
    (∀ n ∈ crowdedTable.columnSizes, n = crowdedTable.size) ∧
    ∀ mode, ∃ scalar simd mkl,
      (ofTable crowdedTable (some mode) "").series = [scalar, simd, mkl] ∧
      scalar.points.length = 2 ∧ scalar.points[0]? = some ⟨crowdedSize mode, .nan⟩ := by
  have hsizes : ∀ n ∈ crowdedTable.columnSizes, n = crowdedTable.size := by
    decide +kernel
  refine ⟨hsizes, fun mode => ?_⟩
  obtain ⟨⟨sizes, hnames, ⟨scalar, simd, mkl, hseries, ⟨-, -, hplots⟩, -⟩, -⟩, -⟩ :=
    ofTable_spec crowdedTable hsizes mode ""
  have hsize : (sizes crowdedTable)[0]?.map (Binary64.ofInt ∘ Int64.toInt) =
      some (crowdedSize mode) := by
    cases hnames <;> decide +kernel
  obtain ⟨x, y, hx, hy, hpoint⟩ := hplots.point_eq 0 (by decide)
  obtain rfl : Binary64.nan = y := Option.some.inj hy
  rw [hx, Option.map_some, Option.some.injEq, Function.comp_apply] at hsize
  rw [hsize] at hpoint
  exact ⟨scalar, simd, mkl, hseries, hplots.length_eq, hpoint⟩

end ChartData

end TimingChart
