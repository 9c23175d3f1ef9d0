import TimingChart.Text.Utf8

/-!
# Options

The command line has four options with a value, one flag, and one word for the input file. Two more
flags show the help text and the version.
-/

namespace TimingChart.CommandLine

/-- The options and the flag. -/
inductive Key where
  | mode
  | outputDirectory
  | save
  | width
  | height
deriving DecidableEq, Repr

namespace Key

def all : List Key := [mode, outputDirectory, save, width, height]

/-- What the value of an option, or a flag, is called in messages. -/
def name : Key → String
  | mode => "mode"
  | outputDirectory => "output_dir"
  | save => "save"
  | width => "width"
  | height => "height"

/-- The name behind two dashes. -/
def long : Key → String
  | mode => "mode"
  | outputDirectory => "outdir"
  | save => "save"
  | width => "width"
  | height => "height"

/-- The letter behind one dash. -/
def short? : Key → Option Char
  | mode => some 'm'
  | outputDirectory => some 'd'
  | save => some 's'
  | width | height => none

def takesValue : Key → Bool
  | save => false
  | _ => true

/-- The value of an option that is given without one, or not at all. -/
def default? : Key → Option String
  | mode | save => none
  | outputDirectory => some "./vector_api_test_plots/"
  | width => some "1600"
  | height => some "800"

def usage (key : Key) : String :=
  if key.takesValue then "--" ++ key.long ++ " <" ++ key.name ++ ">" else "--" ++ key.long

end Key

/-- All names behind two dashes, those of the flags first. -/
def longNames : List String := ["save", "help", "version", "mode", "outdir", "width", "height"]

def programName : String := "matmul_plot"
def version : String := "0.1.0"

/-- The help text, for a program that is called by this name. In its first line, dashes stand for
the blanks of such a name. -/
def helpText (calledAs : String) : String :=
  let title :=
    if calledAs.toList.contains ' ' then
      String.ofList (calledAs.toList.map fun c => if c = ' ' then '-' else c)
    else programName
  "\n".intercalate
    [title ++ " " ++ version,
      "Luca Peruzzo",
      "cli app to plot scalar, SIMD and MKL matrix multiplication timings",
      "",
      "USAGE:",
      "    " ++ calledAs ++ " [FLAGS] [OPTIONS] <input_csvfile>",
      "",
      "FLAGS:",
      "    -h, --help       Prints help information",
      "    -s, --save       save the chart as svg in the output directory instead of showing it",
      "    -V, --version    Prints version information",
      "",
      "OPTIONS:",
      "        --height <height>        chart height in pixels [default: 800]",
      "    -m, --mode <mode>            column on the x-axis: 1 = rows1, 2 = cols1, 3 = cols2, " ++
        "4 = k; prompts if missing",
      "    -d, --outdir <output_dir>    directory for the saved charts, created if missing " ++
        "[default: ./vector_api_test_plots/]",
      "        --width <width>          chart width in pixels [default: 1600]",
      "",
      "ARGS:",
      "    <input_csvfile>    csv file with the benchmark results"]

/-! ## Refusals -/

/-- Why no chart is drawn. -/
inductive Refusal where
  | help (calledAs : String)
  | version
  | unknownArgument (word : String) (suggestion : Option String)
  | missingInput
  | emptyValue (key : Key)
  | repeated (key : Key)
  | invalidValue (value : String)
deriving DecidableEq, Repr

def Refusal.message : Refusal → String
  | help calledAs => helpText calledAs
  | version => ""
  | unknownArgument word suggestion =>
    s!"error: Found argument '{word}' which wasn't expected, or isn't valid in this context" ++
      match suggestion with
      | some name => "\n\tDid you mean --" ++ name ++ "?"
      | none => ""
  | missingInput =>
    "error: The following required arguments were not provided:\n    <input_csvfile>"
  | emptyValue key =>
    s!"error: The argument '{key.usage}' requires a value but none was supplied"
  | repeated key =>
    s!"error: The argument '{key.usage}' was provided more than once, " ++
      "but cannot be used multiple times"
  | invalidValue value => s!"error: Invalid value: The argument '{value}' isn't a valid value"

/-- Help and version have been asked for; everything else is a mistake. -/
def Refusal.isMistake : Refusal → Bool
  | help _ | version => false
  | _ => true

end TimingChart.CommandLine
