import TimingChart.Bench.Mode
import TimingChart.Decimal.Reading
import TimingChart.Log
import TimingChart.Text.Blank
import TimingChart.Text.Quoted
import TimingChart.Text.Utf8

/-!
# Selecting a mode

A selection is the number of a mode with blanks around it. Any other answer selects no mode and
leaves a warning; the chart is then empty.

The prompt asks for a selection and takes one line of input as the answer.
-/

namespace TimingChart

namespace Selection

/-- An answer and the warning about it, if there is one. -/
structure Outcome where
  mode : Option Mode
  log : Log
deriving DecidableEq, Repr

def warning (message : String) : Log.Entry :=
  ⟨.warn, message ++ "; the chart will be empty"⟩

/-- The mode that an answer selects. -/
def parse (answer : List Char) : Outcome :=
  let answer := Blank.trimBy Blank.isBlank answer
  match Numeral.readInt64 10 answer with
  | .ok selector =>
    match Mode.ofSelector? selector.toInt with
    | some mode => ⟨some mode, []⟩
    | none => ⟨none, [warning s!"mode {selector.toInt} is not one of 1, 2, 3, 4"]⟩
  | .error _ =>
    ⟨none, [warning ("mode " ++ String.ofList (Quoted.encode answer) ++ " is not an integer")]⟩

end Selection

/-! ## The prompt -/

namespace Prompt

def text : String :=
  "Modes: (1) = rows1 on x-axis, (2) = cols1 on x-axis, " ++
    "(3) = cols2 on x-axis, (4) = k on x-axis: "

/-- The first line of the input, with its line feed if it has one, and the rest of the input. -/
def splitLine : Bytes → Bytes × Bytes
  | [] => ([], [])
  | b :: rest =>
    if b = 0x0A then ([b], rest)
    else
      let (line, rest) := splitLine rest
      (b :: line, rest)

/-- The selection on a line. There is none if the line is no text. -/
def answer? (line : Bytes) : Option Selection.Outcome := (Utf8.decode? line).map Selection.parse

/-- What one prompt leads to, and the input that is left. -/
structure Outcome where
  selection : Option Selection.Outcome
  written : String
  rest : Bytes

/-- Writes the prompt and reads a line. -/
def ask (input : Bytes) : Outcome :=
  let (line, rest) := splitLine input
  ⟨answer? line, text, rest⟩

/-- Asks several times in a row, each time for the next line. -/
def askTimes : (times : Nat) → (input : Bytes) → List Outcome
  | 0, _ => []
  | times + 1, input =>
    let outcome := ask input
    outcome :: askTimes times outcome.rest

end Prompt

end TimingChart
