import TimingChart.Bench.LoadFile
import TimingChart.Chart.Svg
import TimingChart.CommandLine.Config

/-!
# Plans

A run loads a table, makes the directory for charts, finds out the mode, draws the chart and writes
it, in this order; the first step that fails ends it. The chart goes to the directory for charts, or
to the one for temporary files, where a viewer is started on it.

The plan of a run says what it asks its surroundings for, and how it goes on with each answer.
-/

namespace TimingChart

/-! ## What is written, and where -/

/-- The chart of a file is called like the file, with an ending of its own. -/
def chartName (input : Path) : Bytes :=
  input.fileName?.getD (Utf8.encode "chart".toList) ++ Utf8.encode ".svg".toList

/-- The path that the chart is written to. -/
def Config.chartPath (config : Config) (temporary : Path) : Path :=
  (if config.save then config.outputDirectory else temporary).child (chartName config.input)

/-- What a chart of a table shows; its caption names the file that the table was loaded from. -/
def ChartData.ofFile (input : Path) (t : Table) (mode : Option Mode) : ChartData :=
  .ofTable t mode ("file = " ++ input.display)

/-- The document for a chart. -/
def ChartData.document (d : ChartData) (size : Size) : Except Fault (List Char) :=
  match d.draw? size with
  | some drawing => .ok drawing.svg
  | none => .error (.plot "the ticks of an axis do not end")

/-! ## What is reported -/

namespace Report

/-- How much has been read, and the table itself. -/
def loaded (input : Path) (t : Table) : Log :=
  [⟨.info, s!"read {t.size} records from {input.display}"⟩,
    ⟨.debug, String.ofList ('\n' :: t.text)⟩]

def mode : Option Mode → Log
  | some mode => [⟨.info, "plotting against " ++ mode.header⟩]
  | none => [⟨.warn, "no valid mode selected, rendering an empty chart"⟩]

def saved (path : Path) : Log := [⟨.info, "saved chart to " ++ path.display⟩]

/-- What came of starting a viewer on a chart. -/
def viewed (path : Path) : Option OsError → Log
  | none => [⟨.info, "opened " ++ path.display⟩]
  | some error =>
    [⟨.warn, s!"could not open a viewer ({error.message}), the chart is at {path.display}"⟩]

end Report

/-! ## Plans -/

/-- What a run does next. -/
inductive Plan where
  /-- ends with the path of the chart or a fault -/
  | done (result : Except Fault Path)
  | report (entries : Log) (next : Plan)
  /-- opens and reads the file at a path -/
  | read (path : Path) (next : Except IoFault Entry → Plan)
  /-- makes a directory and those on the way to it, and goes on with the fault, if any -/
  | makeDirectories (path : Path) (next : Option IoFault → Plan)
  /-- writes a prompt and reads a line -/
  | ask (prompt : String) (next : Bytes → Plan)
  /-- writes a file, and goes on with the fault, if any -/
  | write (path : Path) (content : Bytes) (next : Option IoFault → Plan)
  /-- starts a viewer, and goes on with what kept it from starting, if anything did -/
  | view (path : Path) (next : Option OsError → Plan)

namespace Plan

def fails (fault : Fault) : Plan := done (.error fault)

/-- Goes on unless there is a fault. -/
def proceed (next : Plan) : Option IoFault → Plan
  | some fault => fails (.io fault)
  | none => next

/-- Finds out the mode, by a prompt if need be. -/
def withMode (source : ModeSource) (next : Option Mode → Plan) : Plan :=
  match source with
  | .given mode => next mode
  | .prompt =>
    ask Prompt.text fun line =>
      match Prompt.answer? line with
      | none => fails (.io .notText)
      | some selection => report selection.log (next selection.mode)

/-- Says where a chart is that has been written, and shows it if it was not to be saved. -/
def present (save : Bool) (path : Path) : Plan :=
  if save then report (Report.saved path) (done (.ok path))
  else view path fun error => report (Report.viewed path error) (done (.ok path))

/-- Draws a chart and writes it. -/
def draw (data : ChartData) (size : Size) (save : Bool) (path : Path) : Plan :=
  match data.document size with
  | .error fault => fails fault
  | .ok document => write path (Utf8.encode document) (proceed (present save path))

end Plan

open Plan in
/-- The plan of the run that a configuration asks for. -/
def Config.plan (config : Config) (temporary : Path) : Plan :=
  read config.input fun opened =>
    match Table.ofOpened config.input opened with
    | .error fault => fails fault
    | .ok t =>
      report (Report.loaded config.input t) <|
      makeDirectories config.outputDirectory <| proceed <|
      withMode config.mode fun mode =>
      report (Report.mode mode) <|
      draw (.ofFile config.input t mode) config.size config.save (config.chartPath temporary)

end TimingChart
