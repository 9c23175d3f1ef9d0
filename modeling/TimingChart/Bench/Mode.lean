import TimingChart.Bench.Table

/-!
# Modes

A mode is one of the four size columns; a chart shows the timings against it.
-/

namespace TimingChart

/-- The column on the horizontal axis. -/
inductive Mode where
  | rows1
  | cols1
  | cols2
  | threads
deriving DecidableEq, Repr

namespace Mode

/-- All modes in the order of their selectors. -/
def all : List Mode := [rows1, cols1, cols2, threads]

/-- Modes are selected by number, from one on. -/
def ofSelector? (selector : Int) : Option Mode :=
  if selector ≤ 0 then none else all[selector.toNat - 1]?

/-- The name of the column. -/
def header : Mode → String
  | rows1 => "rows1"
  | cols1 => "cols1"
  | cols2 => "cols2"
  | threads => "k"

def meaning : Mode → String
  | rows1 => "rows of LHS matrix"
  | cols1 => "columns of LHS matrix"
  | cols2 => "columns of RHS matrix"
  | threads => "amount of threads"

/-- What is written below the horizontal axis. -/
def axisTitle (mode : Mode) : String := mode.header ++ "= " ++ mode.meaning

/-- The values of the column. -/
def column (mode : Mode) (t : Table) : Array Int64 :=
  match mode with
  | rows1 => t.rows1
  | cols1 => t.cols1
  | cols2 => t.cols2
  | threads => t.threads

/-- The same value of a single run. -/
def value (mode : Mode) (r : Record) : Int64 :=
  match mode with
  | rows1 => r.rows1
  | cols1 => r.cols1
  | cols2 => r.cols2
  | threads => r.threads

end Mode

end TimingChart
