import TimingChart.Bench.LoadFile

/-!
# Sessions

A session works on one table and keeps copies of earlier ones in numbered slots.
-/

namespace TimingChart

structure Session where
  table : Table
  saved : Array Table
deriving DecidableEq

namespace Session

/-- An empty table and no copies. -/
def start : Session := ⟨.empty, #[]⟩

/-- What can be done with the table. -/
inductive Step where
  /-- starts over with an empty table that has room for some runs -/
  | fresh (capacity : Nat)
  | push (record : Record)
  /-- takes the table at a path, if there is one -/
  | load (files : FileSystem) (path : Path)
  /-- puts a copy into the next slot -/
  | save
  /-- takes the copy in a slot, if there is one -/
  | restore (slot : Nat)
deriving DecidableEq

/-- The session after a step. What fails leaves it as it was, but a demand for more room than there
can be ends it. -/
def apply (s : Session) : Step → Option Session
  | .fresh capacity => (Table.withCapacity? capacity).map fun table => { s with table }
  | .push record => some { s with table := s.table.push record }
  | .load files path =>
    match Table.loadFile files path with
    | .ok table => some { s with table }
    | .error _ => some s
  | .save => some { s with saved := s.saved.push s.table }
  | .restore slot => some { s with table := s.saved.getD slot s.table }

/-- The session after several steps. -/
def run (s : Session) (steps : List Step) : Option Session := steps.foldlM apply s

end Session

end TimingChart
