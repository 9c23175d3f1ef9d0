import TimingChart.Run.State

/-!
# The program

The program reads its command line, says what it is going to do, and runs. Standard output gets the
announcement and the prompt, or a text that was asked for; standard error gets the log and the
mistakes. An exit code of zero means that all went well.
-/

namespace TimingChart

namespace Program

/-- How the program was started. -/
structure Invocation where
  arguments : List Bytes
  input : Bytes
  verbosity : Log.Verbosity
deriving DecidableEq, Repr

/-- What the program says, and its exit code. -/
structure Outcome where
  exitCode : UInt32
  output : String
  errors : String
deriving DecidableEq, Repr

def success : UInt32 := 0
def failure : UInt32 := 1

/-- The exit code of a program that had to give up. -/
def aborted : UInt32 := 101

def announcement (config : Config) : String :=
  s!"read data from {config.input.display} (output directory {config.outputDirectory.display})\n"

/-- What is said about a command line that asks for no chart: a text that was asked for, or what is
wrong with it. -/
def textsOf : CommandLine.Stop → Outcome
  | .notText => ⟨aborted, "", "an argument is not valid UTF-8\n"⟩
  | .refused .version =>
    ⟨success, CommandLine.programName ++ " " ++ CommandLine.version ++ "\n", ""⟩
  | .refused refusal =>
    if refusal.isMistake then ⟨failure, "", refusal.message ++ "\n"⟩
    else ⟨success, refusal.message ++ "\n", ""⟩

/-- What has been said when a run has ended. The log of a failed run ends with its fault. -/
def textsOfRun (verbosity : Log.Verbosity) (o : Run.Outcome) : Outcome :=
  match o.result with
  | .ok _ => ⟨success, o.state.output, Log.text verbosity o.state.log⟩
  | .error fault =>
    ⟨failure, o.state.output, Log.text verbosity (o.state.log ++ [⟨.error, fault.message⟩])⟩

end Program

open Program in
/-- Runs the program and gives the files that it leaves. -/
def program (setting : Setting) (files : FileSystem) (invocation : Invocation) :
    Outcome × FileSystem :=
  let parsed := CommandLine.parse invocation.arguments
  match parsed.result with
  | .error stop =>
    let texts := textsOf stop
    let warnings := Log.text invocation.verbosity parsed.log
    ({ texts with errors := warnings ++ texts.errors }, files)
  | .ok config =>
    let o := run setting config ⟨files, invocation.input, announcement config, parsed.log⟩
    (textsOfRun invocation.verbosity o, o.state.files)

end TimingChart
