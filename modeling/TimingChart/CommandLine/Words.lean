import TimingChart.CommandLine.Options
import TimingChart.CommandLine.Similarity

/-!
# Words

The words of a command line are read from left to right. An option takes its value from the same
word or from the next one; a word that starts with a dash is never the value of the word before.
Flags and options with one letter can be joined. Behind `--` every word stands for itself.
-/

namespace TimingChart.CommandLine

/-- Why reading the words ended early: there is nothing to draw, or a word is no text where text is
needed, and then the program aborts. -/
inductive Stop where
  | refused (refusal : Refusal)
  | notText
deriving DecidableEq, Repr

/-- What the words read so far say. -/
structure Words where
  /-- what the program is called -/
  calledAs : String
  input : Option Bytes
  /-- each use of an option or a flag -/
  uses : List Key
  /-- each value of an option -/
  values : List (Key × Bytes)
  /-- the option that the next word may be the value of -/
  pending : Option Key
  /-- whether there was a `--` -/
  plainOnly : Bool
deriving DecidableEq, Repr

namespace Words

def dash : UInt8 := 0x2D
def equalsSign : UInt8 := 0x3D

def start (calledAs : String) : Words := ⟨calledAs, none, [], [], none, false⟩

/-- The first value of an option, or its default. -/
def value? (w : Words) (key : Key) : Option Bytes :=
  (w.values.lookup key).or (key.default?.map fun text => Utf8.encode text.toList)

def addValue (w : Words) (key : Key) (value : Bytes) : Words :=
  { w with values := w.values ++ [(key, value)], pending := none }

def addUse (w : Words) (key : Key) : Words := { w with uses := w.uses ++ [key] }

/-- Text that goes into a message. -/
def shown (word : Bytes) : String := String.ofList (Utf8.decodeLossy word)

/-- A word that stands for itself. Only the first one is expected. -/
def plain (w : Words) (word : Bytes) : Except Stop Words :=
  match w.input with
  | none => .ok { w with input := some word }
  | some _ => .error (.refused (.unknownArgument (shown word) none))

/-- An option, with what the same word says of its value. Equals signs before a value do not
count. -/
def option (w : Words) (key : Key) (attached : Option Bytes) : Words :=
  match attached with
  | some value => (w.addUse key).addValue key (value.dropWhile (· = equalsSign))
  | none => { w.addUse key with pending := some key }

/-- A name that nothing has. It must be text, and so must all words after it. -/
def unknownName (name : Bytes) (rest : List Bytes) : Stop :=
  match Utf8.decode? name with
  | none => .notText
  | some text =>
    if rest.all fun word => (Utf8.decode? word).isSome then
      let name := String.ofList text
      .refused (.unknownArgument ("--" ++ name) (Similarity.best? name longNames))
    else .notText

/-- A word with two dashes, before the rest of the words: a name and perhaps a value behind an
equals sign. -/
def long (w : Words) (word : Bytes) (rest : List Bytes) : Except Stop Words :=
  let body := word.dropWhile (· = dash)
  let name := body.takeWhile (· ≠ equalsSign)
  let attached :=
    if equalsSign ∈ body then some ((body.dropWhile (· ≠ equalsSign)).drop 1) else none
  let isNamed (known : String) := name = Utf8.encode known.toList
  match Key.all.find? fun key => isNamed key.long with
  | some key => .ok (if key.takesValue then w.option key attached else w.addUse key)
  | none =>
    if isNamed "help" then .error (.refused (.help w.calledAs))
    else if isNamed "version" then .error (.refused .version)
    else .error (unknownName name rest)

/-- The letters behind a single dash. The value of an option is the rest of the word. -/
def letters (w : Words) : Bytes → Except Stop Words
  | [] => .ok w
  | b :: rest =>
    let letter := (Utf8.decodeLossy (b :: rest)).headD '-'
    match Key.all.find? fun key => key.short? = some letter with
    | some key =>
      if key.takesValue then .ok (w.option key (if rest.isEmpty then none else some rest))
      else (w.addUse key).letters rest
    | none =>
      if letter = 'h' then .error (.refused (.help w.calledAs))
      else if letter = 'V' then .error (.refused .version)
      else .error (.refused (.unknownArgument (String.ofList ['-', letter]) none))

/-- A word without a dash in front is the value of the option before it, if that lacks one. -/
def plainOrValue (w : Words) (word : Bytes) : Except Stop Words :=
  match w.pending with
  | some key => .ok (w.addValue key word)
  | none => w.plain word

/-- One word, before the rest of the words. -/
def read (w : Words) (word : Bytes) (rest : List Bytes) : Except Stop Words :=
  if w.plainOnly then w.plain word
  else if word = [dash, dash] then .ok { w with plainOnly := true }
  else
    match word with
    | first :: second :: others =>
      if first = dash then
        let w := { w with pending := none }
        if second = dash then w.long word rest else w.letters (second :: others)
      else w.plainOrValue word
    | _ => w.plainOrValue word

/-- All words in order. -/
def readAll (w : Words) : List Bytes → Except Stop Words
  | [] => .ok w
  | word :: rest => do (← w.read word rest).readAll rest

/-- An option that was used, has no value and no default. -/
def lacksValue (w : Words) (key : Key) : Bool :=
  key.takesValue && w.uses.contains key && (w.value? key).isNone

/-- What is wrong with the words as a whole, if anything. -/
def refusal? (w : Words) : Option Refusal :=
  if w.input.isNone then some .missingInput
  else
    match Key.all.find? w.lacksValue with
    | some key => some (.emptyValue key)
    | none => (Key.all.find? fun key => 1 < w.uses.count key).map .repeated

end Words

end TimingChart.CommandLine
