import TimingChart.Bench.Table
import TimingChart.Csv.Reader
import TimingChart.Decimal.Reading
import TimingChart.Text.Blank
import TimingChart.Text.Quoted

/-!
# Loading tables

The first record of a file is taken for the line of column names and dropped, whatever it holds.
Every other record must be text, have eight fields, and hold integers in the first four of them and
doubles in the others. The first record that does not ends the loading.
-/

namespace TimingChart

/-! ## What can be wrong with a record -/

/-- Why a field does not belong into its column. -/
inductive FieldFault where
  | integer (fault : IntegerFault)
  | float (fault : FloatFault)
deriving DecidableEq, Repr

def FieldFault.message : FieldFault → String
  | integer fault => fault.message
  | float fault => fault.message

/-- What is wrong with a record. -/
inductive Defect where
  /-- a field is no text from some byte on, in the record with this number and position -/
  | notText (record lineFeeds offset field validBytes : Nat)
  | fieldCount (found : Nat)
  /-- a field does not belong into its column -/
  | column (header : String) (text : List Char) (fault : FieldFault)
deriving DecidableEq, Repr

/-- A defect and the line it is reported on. -/
structure Rejection where
  line : Nat
  defect : Defect
deriving DecidableEq, Repr

def Defect.reason : Defect → String
  | notText record lineFeeds offset field validBytes =>
    s!"CSV parse error: record {record} (line {lineFeeds + 1}, field: {field}, byte: {offset}): " ++
      s!"invalid utf-8: invalid UTF-8 in field {field} near byte index {validBytes}"
  | fieldCount found => s!"expected 8 fields, found {found}"
  | column header text fault =>
    s!"column {header} = " ++ String.ofList (Quoted.encode text) ++ s!": {fault.message}"

/-! ## One record -/

namespace Load

/-- A field without the blank bytes around it. -/
def trimBytes (field : Bytes) : Bytes := Blank.trimBy Blank.isBlankByte field

/-- The text of a field, without the blanks around it. -/
def fieldText? (field : Bytes) : Option (List Char) :=
  (Utf8.decode? (trimBytes field)).map (Blank.trimBy Blank.isBlank)

/-- The texts of all fields, or the first field that is no text with its number. -/
def fieldTexts : (number : Nat) → List Bytes → Except (Nat × Bytes) (List (List Char))
  | _, [] => .ok []
  | number, field :: rest =>
    match fieldText? field with
    | none => .error (number, trimBytes field)
    | some text => (fieldTexts (number + 1) rest).map (text :: ·)

/-- An integer field. Behind `0x` the digits are those of base sixteen. -/
def readCount (text : List Char) : Except IntegerFault Int64 :=
  match text with
  | '0' :: 'x' :: digits => Numeral.readInt64 16 digits
  | text => Numeral.readInt64 10 text

def integerField (header : String) (text : List Char) : Except Defect Int64 :=
  (readCount text).mapError fun fault => .column header text (.integer fault)

def floatField (header : String) (text : List Char) : Except Defect Binary64 :=
  (Binary64.read text).mapError fun fault => .column header text (.float fault)

/-- A run from the texts of its fields, checked from left to right. -/
def recordOfTexts (texts : List (List Char)) : Except Defect Record :=
  match texts with
  | [rows1, cols1, cols2, threads, timeScalar, timeSimd, timeMkl, improvement] => do
    let rows1 ← integerField "rows1" rows1
    let cols1 ← integerField "cols1" cols1
    let cols2 ← integerField "cols2" cols2
    let threads ← integerField "k" threads
    let timeScalar ← floatField "time_scalar" timeScalar
    let timeSimd ← floatField "time_simd" timeSimd
    let timeMkl ← floatField "time_mkl" timeMkl
    let improvement ← floatField "improvement" improvement
    return { rows1, cols1, cols2, threads, timeScalar, timeSimd, timeMkl, improvement }
  | texts => .error (.fieldCount texts.length)

/-- A run from the record with the given number. Broken text is reported by that number, everything
else by the line on which the reader began to look for the record. -/
def readRecord (number : Nat) (record : Csv.Record) : Except Rejection Record :=
  match fieldTexts 0 record.fields with
  | .error (field, bytes) =>
    .error ⟨number + 1,
      .notText number record.lineFeeds record.offset field (Utf8.validLength bytes)⟩
  | .ok texts => (recordOfTexts texts).mapError fun defect => ⟨record.lineFeeds + 1, defect⟩

/-- The runs from consecutive records, the first of them with the given number. -/
def readRecords : (number : Nat) → List Csv.Record → Except Rejection (List Record)
  | _, [] => .ok []
  | number, record :: rest => do
    let first ← readRecord number record
    let others ← readRecords (number + 1) rest
    return first :: others

end Load

/-- The table that a file holds. -/
def Table.load (content : Bytes) : Except Rejection Table :=
  (Load.readRecords 1 ((Csv.records content).drop 1)).map Table.ofList

end TimingChart
