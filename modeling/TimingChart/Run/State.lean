import TimingChart.Run.Plan

/-!
# Runs

A run carries out the plan of a configuration on a file system and an input.
-/

namespace TimingChart

/-- What a run finds around itself and cannot change. -/
structure Setting where
  /-- the directory for temporary files -/
  temporary : Path
  /-- what keeps a viewer from starting, if anything does -/
  viewerError : Option OsError
deriving DecidableEq, Repr

namespace Run

/-- What a run changes: the files, the input that is left, what has been written to standard output,
and the log. -/
structure State where
  files : FileSystem
  input : Bytes
  output : String
  log : Log
deriving DecidableEq, Repr

/-- The path of the chart or the fault that ended the run, and what has changed by then. -/
structure Outcome where
  result : Except Fault Path
  state : State

/-- Carries out a plan. -/
def perform (setting : Setting) : Plan → State → Outcome
  | .done result, s => ⟨result, s⟩
  | .report entries next, s => perform setting next { s with log := s.log ++ entries }
  | .read path next, s => perform setting (next (s.files.get path)) s
  | .makeDirectories path next, s =>
    let change := s.files.makeDirectories path
    perform setting (next change.fault) { s with files := change.files }
  | .ask prompt next, s =>
    let (line, rest) := Prompt.splitLine s.input
    perform setting (next line) { s with input := rest, output := s.output ++ prompt }
  | .write path content next, s =>
    match s.files.write path content with
    | .error fault => perform setting (next (some fault)) s
    | .ok files => perform setting (next none) { s with files }
  | .view _ next, s => perform setting (next setting.viewerError) s

end Run

/-- Makes the chart that a configuration asks for. -/
def run (setting : Setting) (config : Config) (s : Run.State) : Run.Outcome :=
  Run.perform setting (config.plan setting.temporary) s

end TimingChart
