import TimingChart.Csv.Reader

/-! # Writing records

The same records can be written in many ways: every field bare or in quotes, every line with one of
three ends, with line ends to spare, and with or without a byte order mark. -/

namespace TimingChart.Csv

/-! ## Fields -/

/-- A field as it is written. -/
inductive Spelling where
  /-- the field itself; no byte of it ends a field, and the first one opens no quotes -/
  | bare (content : Bytes) (plain : ∀ b ∈ content, b ≠ comma ∧ isLineEnd b = false)
      (unquoted : content.head? ≠ some quote)
  /-- the field in quotes, with each quote in it doubled -/
  | quoted (content : Bytes)

/-- The bytes between the quotes. -/
def doubleQuotes (content : Bytes) : Bytes :=
  content.flatMap fun b => if b = quote then [quote, quote] else [b]

theorem doubleQuotes_cons (b : UInt8) (content : Bytes) :
    doubleQuotes (b :: content) =
      (if b = quote then [quote, quote] else [b]) ++ doubleQuotes content := rfl

namespace Spelling

/-- The field that is written. -/
def content : Spelling → Bytes
  | bare content _ _ => content
  | quoted content => content

/-- What is written for it. -/
def bytes : Spelling → Bytes
  | bare content _ _ => content
  | quoted content => quote :: doubleQuotes content ++ [quote]

end Spelling

/-! ## Lines -/

/-- The bytes after a record. -/
inductive LineEnd where
  | lineFeed
  | carriageReturn
  | both

def LineEnd.bytes : LineEnd → Bytes
  | lineFeed => [Csv.lineFeed]
  | carriageReturn => [Csv.carriageReturn]
  | both => [Csv.carriageReturn, Csv.lineFeed]

/-- Line ends one after the other. -/
def lineEndBytes (ends : List LineEnd) : Bytes := ends.flatMap LineEnd.bytes

/-- A record as it is written. An empty line is no record. -/
structure Line where
  first : Spelling
  others : List Spelling
  visible : others = [] → first.bytes ≠ []

namespace Line

def content (l : Line) : List Bytes := (l.first :: l.others).map Spelling.content

/-- The fields with commas between them. -/
def bytes (l : Line) : Bytes := l.first.bytes ++ l.others.flatMap fun s => comma :: s.bytes

end Line

/-- A record with the end of its line, and line ends to spare. -/
structure EndedLine where
  line : Line
  lineEnd : LineEnd
  spare : List LineEnd

def EndedLine.bytes (l : EndedLine) : Bytes :=
  l.line.bytes ++ (l.lineEnd.bytes ++ lineEndBytes l.spare)

/-! ## Files -/

/-- A written file. The end of the file may take the place of the last line end. -/
structure Sheet where
  marked : Bool
  before : List LineEnd
  ended : List EndedLine
  last : Option Line

namespace Sheet

def lines (s : Sheet) : List Line := s.ended.map EndedLine.line ++ s.last.toList

/-- The records that are written. -/
def content (s : Sheet) : List (List Bytes) := s.lines.map Line.content

/-- The file behind its byte order mark. -/
def body (s : Sheet) : Bytes :=
  lineEndBytes s.before ++ (s.ended.flatMap EndedLine.bytes ++ (s.last.map Line.bytes).getD [])

def bytes (s : Sheet) : Bytes := (if s.marked then byteOrderMark else []) ++ s.body

/-- A sheet writes these records. Without a byte order mark, the first field must not begin like
one. -/
structure Writes (s : Sheet) (records : List (List Bytes)) : Prop where
  content_eq : s.content = records
  unmistakable : s.marked = false →
    ∀ record ∈ records.head?, ∀ field ∈ record.head?, ¬ byteOrderMark <+: field

end Sheet

/-! ## Every list of records can be written -/

/-- All fields in quotes. -/
def Line.ofFields (first : Bytes) (others : List Bytes) : Line where
  first := .quoted first
  others := others.map .quoted
  visible := by simp [Spelling.bytes]

theorem Line.content_ofFields (first : Bytes) (others : List Bytes) :
    (Line.ofFields first others).content = first :: others := by
  simp [ofFields, content, Spelling.content, Function.comp_def]

theorem exists_writes (records : List (List Bytes)) (hne : ∀ record ∈ records, record ≠ []) :
    ∃ s : Sheet, s.Writes records := by
  have hlines : ∃ ended : List EndedLine, ended.map (fun l => l.line.content) = records := by
    induction records with
    | nil => exact ⟨[], rfl⟩
    | cons record records ih =>
        obtain ⟨ended, hended⟩ := ih fun r hr => hne r (List.mem_cons_of_mem _ hr)
        cases record with
        | nil => exact absurd rfl (hne [] List.mem_cons_self)
        | cons first others =>
            refine ⟨⟨Line.ofFields first others, .lineFeed, []⟩ :: ended, ?_⟩
            rw [List.map_cons, hended, Line.content_ofFields]
  obtain ⟨ended, hended⟩ := hlines
  refine ⟨⟨true, [], ended, none⟩, ?_, by simp⟩
  simpa [Sheet.content, Sheet.lines, Function.comp_def] using hended

end TimingChart.Csv
