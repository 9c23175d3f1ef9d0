import TimingChart.Text.Utf8

/-!
# Splitting a file into records

An automaton over bytes. A field is bare or, if its first byte is a double quote, quoted: up to the
closing quote everything belongs to the field, and a doubled quote stands for one. After the closing
quote the field goes on as a bare one. A record ends at either line ending byte; the same bytes
before a record are skipped.
-/

namespace TimingChart.Csv

/-- One record as it stands in the file: its fields, and where the reader stood when it began to
look for it, as the number of line feeds and of bytes before that point. -/
structure Record where
  fields : List Bytes
  lineFeeds : Nat
  offset : Nat
deriving DecidableEq

/-- Where in a record the reader is. -/
inductive Place where
  /-- before a record, where line endings are skipped -/
  | between
  /-- before the first byte of a field that is not the record's first one -/
  | fieldStart
  /-- in a bare field, or behind the closing quote of a quoted one -/
  | bare
  /-- in the quotes -/
  | quoted
  /-- behind a quote that closes the field unless another one follows -/
  | quoteSeen
deriving DecidableEq

/-- A reader between two bytes. What it has collected so far is kept in reverse. -/
structure Reader where
  place : Place
  /-- line feeds and bytes read so far -/
  lineFeeds : Nat
  offset : Nat
  /-- line feeds and bytes before the record at hand -/
  startLineFeeds : Nat
  startOffset : Nat
  fieldReversed : Bytes
  fieldsReversed : List Bytes
  recordsReversed : List Record
deriving DecidableEq

def comma : UInt8 := 0x2C
def quote : UInt8 := 0x22
def lineFeed : UInt8 := 0x0A
def carriageReturn : UInt8 := 0x0D

/-- Either of the two bytes that end a record. -/
def isLineEnd (b : UInt8) : Bool := b = lineFeed || b = carriageReturn

namespace Reader

/-- A reader that has read so much and begins to look for a record. -/
def start (lineFeeds offset : Nat) : Reader :=
  ⟨.between, lineFeeds, offset, lineFeeds, offset, [], [], []⟩

/-- Adds a byte to the field. -/
def collect (r : Reader) (place : Place) (b : UInt8) : Reader :=
  { r with place, fieldReversed := b :: r.fieldReversed }

/-- Ends the field and expects another one. -/
def endField (r : Reader) : Reader :=
  { r with
    place := .fieldStart
    fieldReversed := []
    fieldsReversed := r.fieldReversed.reverse :: r.fieldsReversed }

/-- The record at hand, with the field at hand as its last. -/
def record (r : Reader) : Record :=
  ⟨(r.fieldReversed.reverse :: r.fieldsReversed).reverse, r.startLineFeeds, r.startOffset⟩

/-- Ends the record; the next one is looked for from here on. -/
def endRecord (r : Reader) : Reader :=
  { r with
    place := .between
    startLineFeeds := r.lineFeeds
    startOffset := r.offset
    fieldReversed := []
    fieldsReversed := []
    recordsReversed := r.record :: r.recordsReversed }

/-- A byte where a field is or goes on as a bare one. -/
def stepBare (r : Reader) (b : UInt8) : Reader :=
  if b = comma then r.endField
  else if isLineEnd b then r.endRecord
  else r.collect .bare b

/-- A byte at the start of a field. -/
def stepStart (r : Reader) (b : UInt8) : Reader :=
  if b = quote then { r with place := .quoted } else r.stepBare b

/-- Counts a byte as read. -/
def advance (r : Reader) (b : UInt8) : Reader :=
  { r with
    lineFeeds := if b = lineFeed then r.lineFeeds + 1 else r.lineFeeds
    offset := r.offset + 1 }

/-- Reads one byte. -/
def step (r : Reader) (b : UInt8) : Reader :=
  let r := r.advance b
  match r.place with
  | .between => if isLineEnd b then r else r.stepStart b
  | .fieldStart => r.stepStart b
  | .bare => r.stepBare b
  | .quoted => if b = quote then { r with place := .quoteSeen } else r.collect .quoted b
  | .quoteSeen => if b = quote then r.collect .quoted b else r.stepBare b

/-- Reads all bytes in order. -/
def run (r : Reader) (bytes : Bytes) : Reader := bytes.foldl step r

/-- The records read when the file ends here: one that has begun is a record too. -/
def finish (r : Reader) : List Record :=
  match r.place with
  | .between => r.recordsReversed.reverse
  | _ => (r.record :: r.recordsReversed).reverse

end Reader

/-- The byte order mark. -/
def byteOrderMark : Bytes := [0xEF, 0xBB, 0xBF]

/-- How many bytes a byte order mark at the very start takes, and the bytes behind it. -/
def skipMark (bytes : Bytes) : Nat × Bytes :=
  if byteOrderMark.isPrefixOf bytes then
    (byteOrderMark.length, bytes.drop byteOrderMark.length)
  else (0, bytes)

/-- The records of a file. A byte order mark is no content, yet counts as bytes read. -/
def records (bytes : Bytes) : List Record :=
  let (skipped, content) := skipMark bytes
  ({ Reader.start 0 skipped with startOffset := 0 }.run content).finish

/-- The records that have ended within these bytes, when more was to come. -/
def endedRecords (bytes : Bytes) : List Record :=
  let (skipped, content) := skipMark bytes
  ({ Reader.start 0 skipped with startOffset := 0 }.run content).recordsReversed.reverse

end TimingChart.Csv
