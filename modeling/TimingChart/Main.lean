import TimingChart.Program

/-!
# Command line

The program on the machine that it is started on. Plans are carried out with the files there, and
entries of the log are shown as they come.
-/

namespace TimingChart.Machine

/-- The error number behind an error. Some actions give it with its sign changed. -/
def osError : IO.Error → OsError
  | .alreadyExists _ code _ | .otherError code _ | .resourceBusy code _
  | .resourceVanished code _ | .unsupportedOperation code _ | .hardwareFault code _
  | .unsatisfiedConstraints code _ | .illegalOperation code _ | .protocolError code _
  | .timeExpired code _ | .interrupted _ code _ | .noFileOrDirectory _ code _
  | .invalidArgument _ code _ | .permissionDenied _ code _ | .resourceExhausted _ code _
  | .inappropriateType _ code _ | .noSuchThing _ code _ => ⟨code.toInt32.toInt.natAbs⟩
  | .unexpectedEof | .userError _ => ⟨5⟩

/-- The fault of an action, if it fails. -/
def faultOf (action : IO Unit) : IO (Option IoFault) := do
  match ← action.toBaseIO with
  | .ok _ => return none
  | .error error => return some (.os (osError error))

/-- Opens and reads a file. A directory fails only when it is read. -/
def readPath (path : Path) : IO (Except IoFault Entry) := do
  match ← (IO.FS.readBinFile path.display).toBaseIO with
  | .ok content => return .ok (.file content.toList)
  | .error error =>
    let error := osError error
    return if error = .isADirectory then .ok .directory else .error (.os error)

def isDirectory (path : Path) : IO Bool := do
  match ← (IO.FS.realPath path.display).toBaseIO with
  | .ok found => found.isDir
  | .error _ => return false

/-- Makes the first of some paths a directory, after the second one if that is missing, and so on.
The empty path needs no directory. -/
def makeInside : List Path → IO (Option IoFault)
  | [] => return some (.os .notFound)
  | path :: outer => do
    if path.isEmpty then return none
    let make := faultOf (IO.FS.createDir path.display)
    let unlessPresent (fault : Option IoFault) := do
      return if ← isDirectory path then none else fault
    let fault ← make
    if fault = none then return none
    if fault ≠ some (.os .notFound) then return ← unlessPresent fault
    let outerFault ← makeInside outer
    if outerFault.isSome then return outerFault
    let fault ← make
    if fault = none then return none else unlessPresent fault

/-- The next line of the standard input. -/
partial def readLine (input : IO.FS.Stream) (line : Bytes) : IO Bytes := do
  match (← input.read 1).toList with
  | [] => return line
  | byte :: _ => if byte = 0x0A then return line ++ [byte] else readLine input (line ++ [byte])

def say (text : String) : IO Unit := do
  let output ← IO.getStdout
  output.putStr text
  output.flush

def report (verbosity : Log.Verbosity) (entries : Log) : IO Unit :=
  IO.eprint (Log.text verbosity entries)

/-- Carries out a plan. There is no viewer that could be started. -/
def perform (verbosity : Log.Verbosity) : Plan → IO (Except Fault Path)
  | .done result => return result
  | .report entries next => do
    report verbosity entries
    perform verbosity next
  | .read path next => do
    let opened ← readPath path
    perform verbosity (next opened)
  | .makeDirectories path next => do
    let fault ← makeInside path.ancestors
    perform verbosity (next fault)
  | .ask prompt next => do
    say prompt
    let line ← readLine (← IO.getStdin) []
    perform verbosity (next line)
  | .write path content next => do
    let fault ← faultOf (IO.FS.writeBinFile path.display ⟨content.toArray⟩)
    perform verbosity (next fault)
  | .view _ next => perform verbosity (next (some .notFound))

end TimingChart.Machine

open TimingChart Machine in
/-- The program: an exit code, after all that there is to say. -/
def main (arguments : List String) : IO UInt32 := do
  let encode (text : String) := Utf8.encode text.toList
  let verbosity := ((← IO.getEnv "MATMUL_PLOT_LOG").bind Log.Verbosity.ofName?).getD .default
  let temporary := Path.ofString ((← IO.getEnv "TMPDIR").getD "/tmp")
  let parsed := CommandLine.parse ((CommandLine.programName :: arguments).map encode)
  report verbosity parsed.log
  match parsed.result with
  | .error stop =>
    let texts := Program.textsOf stop
    say texts.output
    IO.eprint texts.errors
    return texts.exitCode
  | .ok config =>
    say (Program.announcement config)
    match ← perform verbosity (config.plan temporary) with
    | .ok _ => return Program.success
    | .error fault =>
      report verbosity [⟨.error, fault.message⟩]
      return Program.failure
