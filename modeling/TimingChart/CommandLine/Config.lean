import TimingChart.Bench.Selection
import TimingChart.Chart.Drawing
import TimingChart.CommandLine.Words
import TimingChart.Files.Path

/-!
# Configurations

What the words of a command line ask for: an input file, a mode or a prompt for one, a directory for
charts, whether to save the chart there, and its size.
-/

namespace TimingChart

/-- Where the mode comes from. -/
inductive ModeSource where
  | prompt
  | given (mode : Option Mode)
deriving DecidableEq, Repr

structure Config where
  input : Path
  mode : ModeSource
  outputDirectory : Path
  save : Bool
  size : Size
deriving DecidableEq, Repr

namespace CommandLine

/-- A configuration or the reason why there is none, and the warnings on the way to it. -/
structure Outcome where
  result : Except Stop Config
  log : Log

/-- The text of a value. Paths keep their bytes, yet they must be text too. -/
def textOf (value : Bytes) : Except Stop (List Char) :=
  match Utf8.decode? value with
  | some text => .ok text
  | none => .error .notText

/-- A length in pixels. -/
def lengthOf (value : Bytes) : Except Stop UInt32 := do
  let text ← textOf value
  (Numeral.readUInt32 text).mapError fun _ => .refused (.invalidValue (String.ofList text))

/-- The mode that is asked for, and the warning about it, if any. -/
def modeOf (value : Option Bytes) : Except Stop (ModeSource × Log) :=
  match value with
  | none => .ok (.prompt, [])
  | some value => do
    let selection := Selection.parse (← textOf value)
    return (.given selection.mode, selection.log)

/-- The configuration that checked words ask for. -/
def configure (w : Words) : Outcome :=
  let input := w.input.getD []
  let mode := do
    let _ ← textOf input
    modeOf (w.value? .mode)
  match mode with
  | .error stop => ⟨.error stop, []⟩
  | .ok (mode, log) =>
    let result : Except Stop Config := do
      let outputDirectory := (w.value? .outputDirectory).getD []
      let _ ← textOf outputDirectory
      let width ← lengthOf ((w.value? .width).getD [])
      let height ← lengthOf ((w.value? .height).getD [])
      return {
        input := ⟨input⟩
        mode
        outputDirectory := ⟨outputDirectory⟩
        save := w.uses.contains .save
        size := ⟨width, height⟩ }
    ⟨result, log⟩

/-- What a program is called: the last name of the path to it, if that is text. -/
def calledAs (program : Bytes) : String :=
  match (Path.fileName? ⟨program⟩).bind Utf8.decode? with
  | some name => String.ofList name
  | none => programName

/-- The configuration that a command line asks for. Its first word is the path to the program. -/
def parse (arguments : List Bytes) : Outcome :=
  let words := Words.start (calledAs (arguments.headD []))
  match words.readAll (arguments.drop 1) with
  | .error stop => ⟨.error stop, []⟩
  | .ok words =>
    match words.refusal? with
    | some refusal => ⟨.error (.refused refusal), []⟩
    | none => configure words

end CommandLine

end TimingChart
