import TimingChart.Proofs.Bench.Loading
import TimingChart.Proofs.Csv.Boundaries

/-! # Loading files that have grown

A file to which whole records are appended is loaded as the table that it had before, with the new
runs below. A defect of the old part is reported as before. -/

namespace TimingChart

namespace Load

/-- Only the fields of records decide which runs they give. -/
theorem forall₂_gives_iff_of_fields_eq {rs rs' : List Csv.Record} {runs : List Record}
    (h : rs.map Csv.Record.fields = rs'.map Csv.Record.fields) :
    List.Forall₂ Gives rs runs ↔ List.Forall₂ Gives rs' runs := by
  let givesOf (fields : List Bytes) (run : Record) : Prop :=
    ∃ texts, fields.mapM fieldText? = some texts ∧ Spells texts run
  have hmap : ∀ rs : List Csv.Record, List.Forall₂ givesOf (rs.map Csv.Record.fields) runs ↔
      List.Forall₂ Gives rs runs := by
    intro rs
    rw [List.forall₂_map_left_iff]
    rfl
  rw [← hmap rs, ← hmap rs', h]

end Load

namespace Table

open Load (Gives)

/-- The runs of one table, and those of another below them, in every column. -/
def append (t u : Table) : Table where
  rows1 := t.rows1 ++ u.rows1
  cols1 := t.cols1 ++ u.cols1
  cols2 := t.cols2 ++ u.cols2
  threads := t.threads ++ u.threads
  timeScalar := t.timeScalar ++ u.timeScalar
  timeSimd := t.timeSimd ++ u.timeSimd
  timeMkl := t.timeMkl ++ u.timeMkl
  improvement := t.improvement ++ u.improvement

theorem HoldsRuns.append {t u : Table} {runs more : List Record} (ht : t.HoldsRuns runs)
    (hu : u.HoldsRuns more) : (t.append u).HoldsRuns (runs ++ more) := by
  constructor <;> simp [Table.append, ht.rows1, ht.cols1, ht.cols2, ht.threads, ht.timeScalar,
    ht.timeSimd, ht.timeMkl, ht.improvement, hu.rows1, hu.cols1, hu.cols2, hu.threads,
    hu.timeScalar, hu.timeSimd, hu.timeMkl, hu.improvement]

section Grown

variable {h old new : Bytes} (hline : Csv.IsFirstLine h) (hold : Csv.EndsBetween (h ++ old))
include hline hold

/-- A grown file loads exactly if both of its parts do, each behind the first line. -/
theorem load_append_eq_ok_iff {w : Table} :
    load (h ++ old ++ new) = .ok w ↔
      ∃ t u, load (h ++ old) = .ok t ∧ load (h ++ new) = .ok u ∧ w = t.append u := by
  obtain ⟨first, before, behind, grown, hbefore, hbehind, hgrown, hfields⟩ :=
    Csv.records_append hline hold new
  simp only [load_eq_ok_iff, hbefore, hbehind, hgrown, List.drop_one, List.tail_cons]
  constructor
  · intro h
    rcases h with ⟨runs, hruns, hw⟩
    obtain ⟨hfirst, hlast⟩ : List.Forall₂ Gives before (runs.take before.length) ∧
        List.Forall₂ Gives grown (runs.drop before.length) := by
      have htake := List.forall₂_take before.length hruns
      have hdrop := List.forall₂_drop before.length hruns
      rw [List.take_left] at htake
      rw [List.drop_left] at hdrop
      exact ⟨htake, hdrop⟩
    have hall : w.HoldsRuns (runs.take before.length ++ runs.drop before.length) := by
      rwa [List.take_append_drop]
    refine ⟨_, _, ⟨_, hfirst, holdsRuns_ofList _⟩,
      ⟨_, (Load.forall₂_gives_iff_of_fields_eq hfields).mpr hlast, holdsRuns_ofList _⟩, ?_⟩
    rw [hall.eq_ofList, ((holdsRuns_ofList _).append (holdsRuns_ofList _)).eq_ofList]
  · intro h
    rcases h with ⟨t, u, ⟨runs, hruns, ht⟩, ⟨more, hmore, hu⟩, rfl⟩
    have hlast := (Load.forall₂_gives_iff_of_fields_eq hfields).mp hmore
    exact ⟨runs ++ more, List.rel_append hruns hlast, ht.append hu⟩

/-- The first defect of a file stays the first one when the file grows. -/
theorem load_append_of_error {rejection : Rejection}
    (herror : load (h ++ old) = .error rejection) :
    load (h ++ old ++ new) = .error rejection := by
  obtain ⟨first, before, behind, grown, hbefore, -, hgrown, -⟩ := Csv.records_append hline hold new
  rw [load_eq_error_iff, hbefore, List.drop_one, List.tail_cons] at herror
  obtain ⟨good, bad, after, hsplit, hgood, hbad⟩ := herror
  refine load_eq_error_iff.mpr ⟨good, bad, after ++ grown, ?_, hgood, hbad⟩
  rw [hgrown, List.drop_one, List.tail_cons, hsplit, List.append_assoc, List.cons_append]

end Grown

/-! ## Main result -/

/-- A file behind whose last record more is written loads as the table that it was, with the runs
of the new part below; it keeps its first defect, and new defects keep it from loading. -/
theorem loadFile_append {h old new : Bytes} (hline : Csv.IsFirstLine h)
    (hold : Csv.EndsBetween (h ++ old)) {fs₁ fs₂ fs : FileSystem} {p₁ p₂ p : Path}
    (h₁ : fs₁.get p₁ = .ok (.file (h ++ old))) (h₂ : fs₂.get p₂ = .ok (.file (h ++ new)))
    (hgrown : fs.get p = .ok (.file (h ++ old ++ new))) :
    (∀ t u, loadFile fs₁ p₁ = .ok t → loadFile fs₂ p₂ = .ok u →
      loadFile fs p = .ok (t.append u)) ∧
    (∀ fault, loadFile fs₁ p₁ = .error fault → loadFile fs p = .error fault) ∧
    ∀ t fault, loadFile fs₁ p₁ = .ok t → loadFile fs₂ p₂ = .error fault →
      ∃ other, loadFile fs p = .error other := by
  rw [loadFile_of_get h₁, loadFile_of_get h₂, loadFile_of_get hgrown]
  simp only [mapError_eq_ok_iff, mapError_eq_error_iff]
  refine ⟨?_, ?_, ?_⟩
  · intro t u ht hu
    exact (load_append_eq_ok_iff hline hold).mpr ⟨t, u, ht, hu, rfl⟩
  · intro fault hfault
    obtain ⟨rejection, hrejection, rfl⟩ := hfault
    exact ⟨rejection, load_append_of_error hline hold hrejection, rfl⟩
  · intro t fault _ hfault
    obtain ⟨rejection, hrejection, -⟩ := hfault
    cases hload : load (h ++ old ++ new) with
    | error other => exact ⟨other.fault, other, rfl, rfl⟩
    | ok w =>
        obtain ⟨-, u, -, hu, -⟩ := (load_append_eq_ok_iff hline hold).mp hload
        rw [hrejection] at hu
        contradiction

/-- A file system with one file, and the path to it. -/
def onlyFile (content : Bytes) : FileSystem := ⟨[([[0x66]], .file content)], [], []⟩

def onlyPath : Path := ⟨[0x66]⟩

/-- A first line, a record behind it, and a blank line with another record; each line has an end of
its own kind. -/
def mixedParts : Bytes × Bytes × Bytes :=
  (Utf8.encode "h\r\n".toList, Utf8.encode "1,2,3,4,5,6,7,8\r".toList,
    Utf8.encode "\n\n8,7,6,5,4,3,2,1".toList)

theorem loadFile_append_mixedParts :
    Csv.IsFirstLine mixedParts.1 ∧ Csv.EndsBetween (mixedParts.1 ++ mixedParts.2.1) ∧
    loadFile (onlyFile (mixedParts.1 ++ mixedParts.2.1 ++ mixedParts.2.2)) onlyPath =
      .ok ((ofList [⟨1, 2, 3, 4, 5, 6, 7, 8⟩]).append (ofList [⟨8, 7, 6, 5, 4, 3, 2, 1⟩])) := by
  have hline : Csv.IsFirstLine mixedParts.1 :=
    ⟨[0x68], .both, by decide, by decide, by decide, by decide⟩
  have hold : Csv.EndsBetween (mixedParts.1 ++ mixedParts.2.1) := by
    unfold Csv.EndsBetween
    decide
  have hget : ∀ content, (onlyFile content).get onlyPath = .ok (.file content) := fun _ => rfl
  have hgrown := loadFile_append hline hold (hget _) (hget (mixedParts.1 ++ mixedParts.2.2))
    (hget _)
  exact ⟨hline, hold, hgrown.1 _ _ (by decide +kernel) (by decide +kernel)⟩

/-- A carriage return in the first line ends a record there, so that the rest of this line is a run
of every file that begins with it. -/
theorem not_loadFile_append_of_carriageReturn :
    ¬ ∀ (line old new : Bytes) (t u : Table), line ≠ [] → Csv.lineFeed ∉ line → Csv.quote ∉ line →
      line ≠ Csv.byteOrderMark → Csv.EndsBetween (line ++ [Csv.lineFeed] ++ old) →
      loadFile (onlyFile (line ++ [Csv.lineFeed] ++ old)) onlyPath = .ok t →
      loadFile (onlyFile (line ++ [Csv.lineFeed] ++ new)) onlyPath = .ok u →
      loadFile (onlyFile (line ++ [Csv.lineFeed] ++ old ++ new)) onlyPath = .ok (t.append u) := by
  intro h
  have hload := h (Utf8.encode "h\r9,9,9,9,9,9,9,9".toList) (Utf8.encode "1,2,3,4,5,6,7,8\n".toList)
    (Utf8.encode "8,7,6,5,4,3,2,1\n".toList)
    (ofList [⟨9, 9, 9, 9, 9, 9, 9, 9⟩, ⟨1, 2, 3, 4, 5, 6, 7, 8⟩])
    (ofList [⟨9, 9, 9, 9, 9, 9, 9, 9⟩, ⟨8, 7, 6, 5, 4, 3, 2, 1⟩])
    (by decide) (by decide) (by decide) (by decide) (by unfold Csv.EndsBetween; decide)
    (by decide +kernel) (by decide +kernel)
  exact absurd hload (by decide +kernel)

end Table

end TimingChart
