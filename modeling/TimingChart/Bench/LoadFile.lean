import TimingChart.Bench.Load
import TimingChart.Files.FileSystem

/-!
# Loading table files

A table is loaded from the file that a path leads to. Reading it can fail half way, and then a fault
takes the place of the record that would come next.
-/

namespace TimingChart

/-- The fault that a rejected record leads to. -/
def Rejection.fault (r : Rejection) : Fault := .dataFormat r.line r.defect.reason

/-! ## Reading that fails -/

/-- What a file gives, one after the other, if reading it fails behind these bytes. -/
def Csv.brokenItems (bytes : Bytes) (fault : IoFault) : List (Except IoFault Csv.Record) :=
  (endedRecords bytes).map .ok ++ [.error fault]

/-- The runs from what a file gives, the first item with the given number. A fault ends the
loading. -/
def Load.readItems :
    (number : Nat) → List (Except IoFault Csv.Record) → Except Fault (List Record)
  | _, [] => .ok []
  | _, .error fault :: _ => .error (.io fault)
  | number, .ok record :: rest => do
    let first ← (readRecord number record).mapError Rejection.fault
    let others ← readItems (number + 1) rest
    return first :: others

/-- The table in a file that reading fails on behind these bytes. The first item is dropped like the
first record of any file, even if it is the fault. -/
def Table.ofBroken (bytes : Bytes) (fault : IoFault) : Except Fault Table :=
  (Load.readItems 1 ((Csv.brokenItems bytes fault).drop 1)).map Table.ofList

/-! ## Reading what a path leads to -/

/-- The table in what opening a path has led to. A directory can be opened like a file; only reading
it fails, and at once. -/
def Table.ofOpened (p : Path) : Except IoFault Entry → Except Fault Table
  | .error (.os .notFound) => .error (.fileNotFound p)
  | .error fault => .error (.io fault)
  | .ok .directory => Table.ofBroken [] (.os .isADirectory)
  | .ok (.file content) => (Table.load content).mapError Rejection.fault

/-- The table at a path. -/
def Table.loadFile (fs : FileSystem) (p : Path) : Except Fault Table :=
  ofOpened p (fs.get p)

end TimingChart
