import TimingChart.Decimal.Format

/-!
# Benchmark tables

A benchmark run multiplies two matrices and reports four sizes, three timings and a speed-up. A
table stores many runs column by column; `Table.records` is the same table read row by row.
-/

namespace TimingChart

/-- One benchmark run: the matrix sizes and the number of threads, the timings in milliseconds of
the scalar, the SIMD and the MKL multiplication, and the speed-up. -/
structure Record where
  rows1 : Int64
  cols1 : Int64
  cols2 : Int64
  threads : Int64
  timeScalar : Binary64
  timeSimd : Binary64
  timeMkl : Binary64
  improvement : Binary64
deriving DecidableEq

/-- Column names in the order of the columns. -/
def headers : List String :=
  ["rows1", "cols1", "cols2", "k", "time_scalar", "time_simd", "time_mkl", "improvement"]

/-- Benchmark runs, one array for each column. -/
structure Table where
  rows1 : Array Int64
  cols1 : Array Int64
  cols2 : Array Int64
  threads : Array Int64
  timeScalar : Array Binary64
  timeSimd : Array Binary64
  timeMkl : Array Binary64
  improvement : Array Binary64
deriving DecidableEq

namespace Table

/-- A table without runs. -/
def empty : Table := ⟨#[], #[], #[], #[], #[], #[], #[], #[]⟩

instance : Inhabited Table := ⟨empty⟩

/-- Appends one run. -/
def push (t : Table) (r : Record) : Table where
  rows1 := t.rows1.push r.rows1
  cols1 := t.cols1.push r.cols1
  cols2 := t.cols2.push r.cols2
  threads := t.threads.push r.threads
  timeScalar := t.timeScalar.push r.timeScalar
  timeSimd := t.timeSimd.push r.timeSimd
  timeMkl := t.timeMkl.push r.timeMkl
  improvement := t.improvement.push r.improvement

/-- The table of the given runs, in order. -/
def ofList (records : List Record) : Table := records.foldl push empty

/-- The number of runs from which on there is no room for a column: each value takes eight bytes,
and a column has less than `2 ^ 63` of them. -/
def capacityLimit : Nat := 0x1000000000000000

/-- A table without runs, with room for the given number of them, unless that is too many. -/
def withCapacity? (capacity : Nat) : Option Table :=
  if capacity < capacityLimit then some empty else none

def size (t : Table) : Nat := t.rows1.size

def isEmpty (t : Table) : Bool := t.rows1.isEmpty

/-- The run in one row, if all columns reach that far. -/
def record? (t : Table) (row : Nat) : Option Record := do
  return {
    rows1 := ← t.rows1[row]?
    cols1 := ← t.cols1[row]?
    cols2 := ← t.cols2[row]?
    threads := ← t.threads[row]?
    timeScalar := ← t.timeScalar[row]?
    timeSimd := ← t.timeSimd[row]?
    timeMkl := ← t.timeMkl[row]?
    improvement := ← t.improvement[row]? }

/-- The runs in order. Only meant for tables whose columns are all of the same length, as those are
that are made by `push`: a row that some column does not reach would be left out. -/
def records (t : Table) : List Record := (List.range t.size).filterMap t.record?

/-- Numeric equality column by column, in which what is not a number equals nothing. -/
def equals (t u : Table) : Bool :=
  t.rows1 == u.rows1 && t.cols1 == u.cols1 && t.cols2 == u.cols2 && t.threads == u.threads &&
    sameNumbers t.timeScalar u.timeScalar && sameNumbers t.timeSimd u.timeSimd &&
    sameNumbers t.timeMkl u.timeMkl && sameNumbers t.improvement u.improvement
where
  sameNumbers (xs ys : Array Binary64) : Bool :=
    xs.size == ys.size && (xs.zip ys).all fun (x, y) => x.equals y

end Table

/-! ## Text form -/

/-- A line of fields. -/
def csvLine (fields : List (List Char)) : List Char := [','].intercalate fields ++ ['\n']

/-- The fields of a run, integers in decimal form and doubles in their shortest form. -/
def Record.fields (r : Record) : List (List Char) :=
  [integerText r.rows1.toInt, integerText r.cols1.toInt, integerText r.cols2.toInt,
    integerText r.threads.toInt, r.timeScalar.shortText, r.timeSimd.shortText,
    r.timeMkl.shortText, r.improvement.shortText]

/-- The line of column names, then one line for each run. -/
def Table.text (t : Table) : List Char :=
  csvLine (headers.map String.toList) ++ t.records.flatMap fun r => csvLine r.fields

end TimingChart
