import Mathlib.Data.List.Forall2
import TimingChart.Bench.Mode
import TimingChart.Bench.Session
import TimingChart.Proofs.Bench.Loading

/-! # Sessions and lists of runs

A session on a table does what a session on the list of its runs would do: after the same steps, the
columns of the table hold the runs of the list. -/

namespace TimingChart

/-! ## Sessions that keep lists -/

/-- A session that keeps the runs themselves, and copies of earlier lists in numbered slots. -/
structure Ledger where
  runs : List Record
  saved : List (List Record)

namespace Ledger

/-- No runs and no copies. -/
def start : Ledger := ⟨[], []⟩

/-- The runs that the file at a path holds. A directory holds none. -/
def runsAt? (files : FileSystem) (path : Path) : Option (List Record) :=
  match files.get path with
  | .ok .directory => some []
  | .ok (.file content) => (Load.readRecords 1 ((Csv.records content).drop 1)).toOption
  | .error _ => none

/-- The ledger after a step. -/
def apply (l : Ledger) : Session.Step → Ledger
  | .fresh _ => { l with runs := [] }
  | .push run => { l with runs := l.runs ++ [run] }
  | .load files path => { l with runs := (runsAt? files path).getD l.runs }
  | .save => { l with saved := l.saved ++ [l.runs] }
  | .restore slot => { l with runs := (l.saved[slot]?).getD l.runs }

/-- The ledger after several steps. -/
def run (l : Ledger) (steps : List Session.Step) : Ledger := steps.foldl apply l

end Ledger

namespace Table

/-- A table loads exactly if there are runs at the path, and then it holds them. -/
theorem loadFile_eq_ok_iff {files : FileSystem} {path : Path} {t : Table} :
    loadFile files path = .ok t ↔
      ∃ runs, Ledger.runsAt? files path = some runs ∧ t.HoldsRuns runs := by
  have hholds : ∀ runs, t.HoldsRuns runs ↔ ofList runs = t := fun runs =>
    ⟨fun h => h.eq_ofList.symm, fun h => h ▸ holdsRuns_ofList runs⟩
  simp only [loadFile, Ledger.runsAt?, hholds]
  cases files.get path with
  | error fault =>
      simp only [reduceCtorEq, false_and, exists_false, iff_false]
      unfold ofOpened
      split <;> simp_all
  | ok entry =>
      cases entry with
      | directory =>
          simp only [ofOpened, ofBroken_nil, Except.ok.injEq, Option.some.injEq, exists_eq_left']
          rfl
      | file content =>
          simp only [ofOpened, load, mapError_eq_ok_iff, map_eq_ok_iff]
          cases Load.readRecords 1 ((Csv.records content).drop 1) <;>
            simp [Except.toOption, eq_comm]

end Table

/-! ## One step and many -/

theorem forall₂_getD {α β : Type} {related : α → β → Prop} {as : List α} {bs : List β}
    (h : List.Forall₂ related as bs) {a : α} {b : β} (hdefault : related a b) (i : Nat) :
    related ((as[i]?).getD a) ((bs[i]?).getD b) := by
  induction h generalizing i with
  | nil => exact hdefault
  | cons hfirst _ ih =>
      cases i with
      | zero => exact hfirst
      | succ i => exact ih i

namespace Session

/-- The table holds the runs of the ledger, and each copy those of the copy in its slot. -/
structure Mirrors (s : Session) (l : Ledger) : Prop where
  table : s.table.HoldsRuns l.runs
  saved : List.Forall₂ Table.HoldsRuns s.saved.toList l.saved

theorem mirrors_start : start.Mirrors .start :=
  ⟨Table.holdsRuns_empty, .nil⟩

variable {s s' : Session} {l : Ledger}

/-- Only a demand for too much room ends a session. -/
theorem apply_eq_none_iff {step : Step} :
    s.apply step = none ↔ ∃ capacity, step = .fresh capacity ∧ Table.capacityLimit ≤ capacity := by
  cases step with
  | fresh capacity =>
      simp [apply, Table.withCapacity?]
  | load files path =>
      simp only [apply, reduceCtorEq, false_and, exists_false, iff_false]
      split <;> simp
  | _ => simp [apply]

/-- A step keeps the table and the ledger together. -/
theorem Mirrors.apply (h : s.Mirrors l) {step : Step} (hstep : s.apply step = some s') :
    s'.Mirrors (l.apply step) := by
  cases step with
  | fresh capacity =>
      obtain ⟨t, ht, rfl⟩ := Option.map_eq_some_iff.mp hstep
      have hempty : t = .empty := by
        rw [Table.withCapacity?] at ht
        split at ht
        · exact (Option.some.inj ht).symm
        · contradiction
      exact ⟨hempty ▸ Table.holdsRuns_empty, h.saved⟩
  | push run =>
      obtain rfl := Option.some.inj hstep
      exact ⟨h.table.push run, h.saved⟩
  | load files path =>
      rw [Session.apply] at hstep
      split at hstep
      · next t ht =>
        obtain rfl := Option.some.inj hstep
        obtain ⟨runs, hruns, hholds⟩ := Table.loadFile_eq_ok_iff.mp ht
        refine ⟨?_, h.saved⟩
        simpa only [Ledger.apply, hruns, Option.getD_some] using hholds
      · next fault hfault =>
        obtain rfl := Option.some.inj hstep
        have hnone : Ledger.runsAt? files path = none := by
          rw [Option.eq_none_iff_forall_ne_some]
          intro runs hruns
          have hok := Table.loadFile_eq_ok_iff.mpr ⟨runs, hruns, Table.holdsRuns_ofList runs⟩
          rw [hok] at hfault
          contradiction
        refine ⟨?_, h.saved⟩
        simpa only [Ledger.apply, hnone, Option.getD_none] using h.table
  | save =>
      obtain rfl := Option.some.inj hstep
      refine ⟨h.table, ?_⟩
      have hall := List.rel_append h.saved (.cons h.table .nil)
      simpa only [Ledger.apply, Array.toList_push] using hall
  | restore slot =>
      obtain rfl := Option.some.inj hstep
      refine ⟨?_, h.saved⟩
      have hslot := forall₂_getD h.saved h.table slot
      rwa [Array.getElem?_toList, ← Array.getD_eq_getD_getElem?] at hslot

theorem Mirrors.run (h : s.Mirrors l) {steps : List Step} (hrun : s.run steps = some s') :
    s'.Mirrors (l.run steps) := by
  induction steps generalizing s l with
  | nil =>
      obtain rfl := Option.some.inj hrun
      exact h
  | cons step steps ih =>
      rw [Session.run, List.foldlM_cons] at hrun
      obtain ⟨middle, hstep, hrest⟩ := Option.bind_eq_some_iff.mp hrun
      exact ih (h.apply hstep) hrest

theorem run_eq_none_iff {steps : List Step} :
    s.run steps = none ↔
      ∃ capacity, Step.fresh capacity ∈ steps ∧ Table.capacityLimit ≤ capacity := by
  induction steps generalizing s with
  | nil => simp [run]
  | cons step steps ih =>
      rw [run, List.foldlM_cons]
      cases hstep : s.apply step with
      | none =>
          obtain ⟨capacity, rfl, hcapacity⟩ := apply_eq_none_iff.mp hstep
          exact ⟨fun _ => ⟨capacity, List.mem_cons_self, hcapacity⟩, fun _ => rfl⟩
      | some middle =>
          have hsmall : ∀ capacity, step = .fresh capacity → ¬ Table.capacityLimit ≤ capacity := by
            intro capacity heq hcapacity
            rw [apply_eq_none_iff.mpr ⟨capacity, heq, hcapacity⟩] at hstep
            contradiction
          have hrest : (some middle).bind (fun s => s.run steps) = none ↔
              ∃ capacity, Step.fresh capacity ∈ steps ∧ Table.capacityLimit ≤ capacity := ih
          refine hrest.trans ⟨?_, ?_⟩
          · intro h
            rcases h with ⟨capacity, hmem, hcapacity⟩
            exact ⟨capacity, List.mem_cons_of_mem _ hmem, hcapacity⟩
          · intro h
            rcases h with ⟨capacity, hmem, hcapacity⟩
            rcases List.mem_cons.mp hmem with heq | hmem
            · exact absurd hcapacity (hsmall capacity heq.symm)
            · exact ⟨capacity, hmem, hcapacity⟩

end Session

/-! ## What can be seen of a table -/

theorem forall₂_and_iff {α β : Type} {first second : α → β → Prop} {as : List α} {bs : List β} :
    List.Forall₂ (fun a b => first a b ∧ second a b) as bs ↔
      List.Forall₂ first as bs ∧ List.Forall₂ second as bs := by
  constructor
  · intro h
    exact ⟨h.imp fun _ _ hab => hab.1, h.imp fun _ _ hab => hab.2⟩
  · intro h
    obtain ⟨hfirst, hsecond⟩ := h
    induction hfirst with
    | nil => exact .nil
    | cons hab _ ih =>
        cases hsecond with
        | cons hab' hrest => exact .cons ⟨hab, hab'⟩ (ih hrest)

/-- Two runs with equal sizes whose timings are numerically equal. -/
@[mk_iff]
structure Record.Agrees (r r' : Record) : Prop where
  rows1 : r.rows1 = r'.rows1
  cols1 : r.cols1 = r'.cols1
  cols2 : r.cols2 = r'.cols2
  threads : r.threads = r'.threads
  timeScalar : r.timeScalar.equals r'.timeScalar
  timeSimd : r.timeSimd.equals r'.timeSimd
  timeMkl : r.timeMkl.equals r'.timeMkl
  improvement : r.improvement.equals r'.improvement

namespace Table

theorem sameNumbers_iff {xs ys : Array Binary64} :
    equals.sameNumbers xs ys ↔
      List.Forall₂ (fun x y => x.equals y = true) xs.toList ys.toList := by
  rw [equals.sameNumbers, Bool.and_eq_true, beq_iff_eq, List.forall₂_iff_zip, ← Array.all_toList,
    Array.toList_zip, List.all_eq_true, Prod.forall, Array.length_toList, Array.length_toList]

theorem forall₂_map_iff {α : Type} {related : α → α → Prop} {f : Record → α}
    {runs runs' : List Record} :
    List.Forall₂ related (runs.map f) (runs'.map f) ↔
      List.Forall₂ (fun r r' => related (f r) (f r')) runs runs' := by
  rw [List.forall₂_map_left_iff, List.forall₂_map_right_iff]

variable {t u : Table} {runs runs' : List Record}

/-- Tables are equal exactly if their runs agree one by one. -/
theorem HoldsRuns.equals_iff (ht : t.HoldsRuns runs) (hu : u.HoldsRuns runs') :
    t.equals u ↔ List.Forall₂ Record.Agrees runs runs' := by
  have hcounts : ∀ f : Record → Int64, ((runs.map f).toArray == (runs'.map f).toArray) = true ↔
      List.Forall₂ (fun r r' => f r = f r') runs runs' := by
    intro f
    rw [beq_iff_eq, ← Array.toList_inj, ← List.forall₂_eq_eq_eq, forall₂_map_iff]
  have hnumbers : ∀ f : Record → Binary64,
      equals.sameNumbers (runs.map f).toArray (runs'.map f).toArray = true ↔
        List.Forall₂ (fun r r' => (f r).equals (f r') = true) runs runs' := by
    intro f
    rw [sameNumbers_iff, forall₂_map_iff]
  rw [equals, ht.rows1, ht.cols1, ht.cols2, ht.threads, ht.timeScalar, ht.timeSimd, ht.timeMkl,
    ht.improvement, hu.rows1, hu.cols1, hu.cols2, hu.threads, hu.timeScalar, hu.timeSimd,
    hu.timeMkl, hu.improvement]
  change _ ↔ List.Forall₂ (fun r r' => r.Agrees r') runs runs'
  simp only [Bool.and_eq_true, hcounts, hnumbers, Record.agrees_iff, forall₂_and_iff, and_assoc]

/-- The lengths of the columns. -/
def columnSizes (t : Table) : List Nat :=
  [t.rows1.size, t.cols1.size, t.cols2.size, t.threads.size, t.timeScalar.size, t.timeSimd.size,
    t.timeMkl.size, t.improvement.size]

theorem HoldsRuns.size_eq (h : t.HoldsRuns runs) : t.size = runs.length := by
  simp [size, h.rows1]

theorem HoldsRuns.eq_size_of_mem (h : t.HoldsRuns runs) :
    ∀ n ∈ t.columnSizes, n = t.size := by
  intro n hn
  simpa [columnSizes, size, h.rows1, h.cols1, h.cols2, h.threads, h.timeScalar, h.timeSimd,
    h.timeMkl, h.improvement] using hn

theorem HoldsRuns.isEmpty_iff (h : t.HoldsRuns runs) : t.isEmpty ↔ runs = [] := by
  simp [isEmpty, h.rows1]

theorem HoldsRuns.text_eq (h : t.HoldsRuns runs) :
    t.text = csvLine (headers.map String.toList) ++ runs.flatMap fun r => csvLine r.fields := by
  rw [text, h.records_eq]

theorem HoldsRuns.column_getElem? (h : t.HoldsRuns runs) (mode : Mode) (row : Nat) :
    (mode.column t)[row]? = (runs[row]?).map mode.value := by
  cases mode <;> simp only [Mode.column, h.rows1, h.cols1, h.cols2, h.threads,
    List.getElem?_toArray, List.getElem?_map] <;> rfl

end Table

/-! ## Main result -/

namespace Session

/-- A session ends early only where there is no room for a table. In all others the table has the
runs of the ledger in its columns, so that they are equally long and every row can be read, and
what is seen of the table is what the ledger says. -/
theorem run_spec (steps : List Step) :
    (start.run steps = none ↔
      ∃ capacity, Step.fresh capacity ∈ steps ∧ Table.capacityLimit ≤ capacity) ∧
    ∀ s, start.run steps = some s →
      s.table.HoldsRuns (Ledger.start.run steps).runs ∧
      (∀ n ∈ s.table.columnSizes, n = s.table.size) ∧
      s.table.size = (Ledger.start.run steps).runs.length ∧
      (s.table.isEmpty ↔ (Ledger.start.run steps).runs = []) ∧
      (∀ row, s.table.record? row = (Ledger.start.run steps).runs[row]?) ∧
      s.table.text = csvLine (headers.map String.toList) ++
        (Ledger.start.run steps).runs.flatMap (fun r => csvLine r.fields) ∧
      (∀ (mode : Mode) (row : Nat),
        (mode.column s.table)[row]? = ((Ledger.start.run steps).runs[row]?).map mode.value) ∧
      ∀ others other, start.run others = some other →
        (s.table.equals other.table ↔
          List.Forall₂ Record.Agrees (Ledger.start.run steps).runs
            (Ledger.start.run others).runs) := by
  refine ⟨run_eq_none_iff, ?_⟩
  intro s hs
  have h := (mirrors_start.run hs).table
  refine ⟨h, h.eq_size_of_mem, h.size_eq, h.isEmpty_iff, h.record?, h.text_eq,
    h.column_getElem?, ?_⟩
  intro others other hother
  exact h.equals_iff (mirrors_start.run hother).table

/-- A run, a copy of the table, a run more, a file that is missing, and the copy again. -/
def interruptedSteps : List Step :=
  [.fresh 1000, .push ⟨1, 2, 3, 4, 5, 6, 7, .nan⟩, .save, .push ⟨8, 7, 6, 5, 4, 3, 2, 1⟩,
    .load ⟨[], [], []⟩ ⟨[0x66]⟩, .restore 0]

theorem run_spec_interruptedSteps : ∃ s, start.run interruptedSteps = some s ∧
    s.table.HoldsRuns [⟨1, 2, 3, 4, 5, 6, 7, .nan⟩] ∧ s.table.size = 1 ∧
    s.table.equals s.table = false := by
  have hsome : (start.run interruptedSteps).isSome := by decide +kernel
  obtain ⟨s, hs⟩ := Option.isSome_iff_exists.mp hsome
  obtain ⟨hholds, -, hsize, -, -, -, -, hequals⟩ := (run_spec interruptedSteps).2 s hs
  have hruns : (Ledger.start.run interruptedSteps).runs = [⟨1, 2, 3, 4, 5, 6, 7, .nan⟩] := by
    decide +kernel
  rw [hruns] at hholds hsize
  refine ⟨s, hs, hholds, hsize, ?_⟩
  rw [Bool.eq_false_iff, Ne, hequals _ s hs, hruns]
  intro h
  cases h with
  | cons hagrees _ => exact absurd hagrees.improvement (by decide)

/-- There is no room for columns of `2 ^ 64` bytes, and no session goes on after a demand for it. -/
theorem not_run_of_hugeCapacity :
    ¬ ∀ steps, ∃ s, start.run steps = some s ∧ s.table.HoldsRuns (Ledger.start.run steps).runs := by
  intro h
  obtain ⟨s, hs, -⟩ := h [.fresh 2305843009213693952]
  have hnone : start.run [.fresh 2305843009213693952] = none := by decide
  rw [hnone] at hs
  contradiction

end Session

end TimingChart
