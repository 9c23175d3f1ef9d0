import TimingChart.Bench.Load
import TimingChart.Proofs.Text.Quoting

/-! # The words of a reason

The reason of a rejection tells which field is no text, how many fields there are, or which column
has a field that does not belong there. Such a field is quoted between the name of its column and
the problem, so that the reason is a single line from which the field is read back. -/

namespace TimingChart

/-! ## The words -/

/-- How a text that does not belong into a column is reported. -/
def Table.columnReason (header : String) (text : List Char) (problem : String) : String :=
  "column " ++ header ++ " = " ++ String.ofList (Quoted.encode text) ++ (": " ++ problem)

/-- The problem with a text that does not belong into a column. -/
inductive FieldFault.IsCalled : FieldFault → String → Prop where
  | emptyInteger : IsCalled (.integer .empty) "cannot parse integer from empty string"
  | invalidDigit : IsCalled (.integer .invalidDigit) "invalid digit found in string"
  | tooLarge : IsCalled (.integer .tooLarge) "number too large to fit in target type"
  | tooSmall : IsCalled (.integer .tooSmall) "number too small to fit in target type"
  | emptyFloat : IsCalled (.float .empty) "cannot parse float from empty string"
  | invalidFloat : IsCalled (.float .invalid) "invalid float literal"

/-- What is reported about a defect. A field that does not belong into its column is the first thing
in quotes. -/
inductive Defect.IsReportedAs : Defect → String → Prop where
  | notText (record feeds offset field validBytes : Nat) :
      IsReportedAs (.notText record feeds offset field validBytes) <|
      s!"CSV parse error: record {record} (line {feeds + 1}, field: {field}, byte: {offset}): " ++
        s!"invalid utf-8: invalid UTF-8 in field {field} near byte index {validBytes}"
  | fieldCount (found : Nat) :
      IsReportedAs (.fieldCount found) s!"expected 8 fields, found {found}"
  | column {header : String} {text : List Char} {fault : FieldFault} {problem : String}
      (hproblem : fault.IsCalled problem)
      (hread : Quoted.first? (Table.columnReason header text problem).toList = some text) :
      IsReportedAs (.column header text fault) (Table.columnReason header text problem)

/-! ## Fields in reasons -/

namespace Table

variable {header : String} {text : List Char} {problem : String}

theorem toList_columnReason (header : String) (text : List Char) (problem : String) :
    (columnReason header text problem).toList =
      ("column ".toList ++ header.toList ++ " = ".toList) ++ Quoted.encode text ++
        (": ".toList ++ problem.toList) := by
  simp only [columnReason, String.toList_append, String.toList_ofList]

variable (hheader : header ∈ headers)
include hheader

theorem isOneLine_columnReason (hproblem : IsOneLine problem.toList) :
    IsOneLine (columnReason header text problem).toList := by
  have hname : IsOneLine header.toList :=
    (by decide : ∀ header ∈ headers, IsOneLine header.toList) header hheader
  rw [toList_columnReason]
  simp only [isOneLine_append]
  exact ⟨⟨⟨⟨by decide, hname⟩, by decide⟩, Quoted.isOneLine_encode text⟩, by decide, hproblem⟩

/-- No name of a column has a quote in it, so the first text in quotes is the field. -/
theorem first?_columnReason :
    Quoted.first? (columnReason header text problem).toList = some text := by
  have hname : '"' ∉ header.toList :=
    (by decide : ∀ header ∈ headers, '"' ∉ header.toList) header hheader
  rw [toList_columnReason]
  apply Quoted.first?_encode
  simp [hname]

end Table

/-! ## What is reported -/

namespace FieldFault

variable {fault : FieldFault}

theorem isCalled_iff {problem : String} : fault.IsCalled problem ↔ problem = fault.message := by
  constructor
  · intro h
    cases h <;> rfl
  · rintro rfl
    cases fault with
    | integer fault => cases fault <;> constructor
    | float fault => cases fault <;> constructor

theorem IsCalled.isOneLine {problem : String} (h : fault.IsCalled problem) :
    IsOneLine problem.toList := by
  cases h <;> decide

end FieldFault

namespace Defect

variable {d : Defect} {reason : String}

theorem reason_column (header : String) (text : List Char) (fault : FieldFault) :
    (column header text fault).reason = Table.columnReason header text fault.message := rfl

theorem IsReportedAs.eq_reason (h : d.IsReportedAs reason) : reason = d.reason := by
  cases h with
  | notText => rfl
  | fieldCount => rfl
  | column hproblem => rw [reason_column, FieldFault.isCalled_iff.mp hproblem]

/-- The reason of each defect is the one that is to be reported, as columns have names of their
own. -/
theorem isReportedAs_reason
    (hheader : ∀ header text fault, d = .column header text fault → header ∈ headers) :
    d.IsReportedAs d.reason := by
  cases d with
  | notText record lineFeeds offset field validBytes => exact .notText ..
  | fieldCount found => exact .fieldCount found
  | column header text fault =>
      exact .column (FieldFault.isCalled_iff.mpr rfl)
        (Table.first?_columnReason (hheader header text fault rfl))

end Defect

end TimingChart
