import TimingChart.Proofs.Bench.Loading
import TimingChart.Proofs.Csv.Shifts

/-! # Headings

The line of column names is dropped, and nothing else depends on it: not on the names, not on their
number, not on whether they are text. All that is left of it is its length, in the positions that
are quoted for records that are no text. -/

namespace TimingChart

/-- The defect of a record that comes so many bytes later. A position is quoted only for what is no
text. -/
def Defect.moved (bytes : Nat) : Defect → Defect
  | .notText record lineFeeds offset field validBytes =>
      .notText record lineFeeds (offset + bytes) field validBytes
  | .fieldCount found => .fieldCount found
  | .column header text fault => .column header text fault

def Rejection.moved (bytes : Nat) (r : Rejection) : Rejection :=
  ⟨r.line, r.defect.moved bytes⟩

namespace Load

theorem moved_of_recordOfTexts {texts : List (List Char)} {d : Defect}
    (h : recordOfTexts texts = .error d) (bytes : Nat) : d.moved bytes = d := by
  by_cases h8 : texts.length = 8
  · obtain ⟨column, header, text, fault, -, -, rfl⟩ := (recordOfTexts_eq_error_iff h8).mp h
    rfl
  · rw [recordOfTexts_of_length_ne h8] at h
    obtain rfl := Except.error.inj h
    rfl

theorem readRecord_moved (number bytes : Nat) (r : Csv.Record) :
    readRecord number (r.moved bytes) = (readRecord number r).mapError (Rejection.moved bytes) := by
  unfold readRecord Csv.Record.moved
  dsimp only
  split
  · rfl
  · cases hrecord : recordOfTexts _ with
    | ok run => rfl
    | error d =>
        simp only [Except.mapError, Rejection.moved, moved_of_recordOfTexts hrecord]

/-- Where records come later, they hold the same runs, and the first defect comes later. -/
theorem readRecords_moved (rs : List Csv.Record) (number bytes : Nat) :
    readRecords number (rs.map (Csv.Record.moved bytes)) =
      (readRecords number rs).mapError (Rejection.moved bytes) := by
  induction rs generalizing number with
  | nil => rfl
  | cons r rs ih =>
      rw [List.map_cons, readRecords, readRecords, readRecord_moved, ih]
      cases readRecord number r with
      | error rejection => rfl
      | ok run => cases readRecords (number + 1) rs <;> rfl

end Load

namespace Table

/-- What loading makes of the records below a first line, as if there were nothing on it but its line
feed. -/
def loadBelow (rest : Bytes) : Except Rejection Table :=
  (Load.readRecords 1 (Csv.recordsBelow rest)).map ofList

theorem load_heading {line : Bytes} (h : Csv.IsHeading line) (rest : Bytes) :
    load (line ++ Csv.lineFeed :: rest) =
      (loadBelow rest).mapError (Rejection.moved line.length) := by
  obtain ⟨first, hrecords⟩ := h.records_append rest
  rw [load, loadBelow, hrecords, List.drop_one, List.tail_cons, Load.readRecords_moved]
  cases Load.readRecords 1 (Csv.recordsBelow rest) <;> rfl

/-- Files that differ in their headings only load as the same table, or are rejected on the same line
and for the same reason, in which a position is quoted that counts the bytes of the heading. -/
theorem loadFile_heading {line₁ line₂ : Bytes} (h₁ : Csv.IsHeading line₁)
    (h₂ : Csv.IsHeading line₂) (rest : Bytes) {fs₁ fs₂ : FileSystem} {p₁ p₂ : Path}
    (hget₁ : fs₁.get p₁ = .ok (.file (line₁ ++ Csv.lineFeed :: rest)))
    (hget₂ : fs₂.get p₂ = .ok (.file (line₂ ++ Csv.lineFeed :: rest))) :
    (∃ t, loadFile fs₁ p₁ = .ok t ∧ loadFile fs₂ p₂ = .ok t) ∨
    ∃ (line : Nat) (defect : Defect),
      loadFile fs₁ p₁ = .error (.dataFormat line (defect.moved line₁.length).reason) ∧
      loadFile fs₂ p₂ = .error (.dataFormat line (defect.moved line₂.length).reason) := by
  rw [loadFile_of_get hget₁, loadFile_of_get hget₂, load_heading h₁, load_heading h₂]
  cases loadBelow rest with
  | ok t => exact .inl ⟨t, rfl, rfl⟩
  | error rejection => exact .inr ⟨rejection.line, rejection.defect, rfl, rfl⟩

/-- A file below this heading: a run, and on the next line a byte that is no text. -/
def headedFile (line : Bytes) : FileSystem :=
  ⟨[([[0x66]], .file (line ++ Csv.lineFeed :: (Utf8.encode "1,2,3,4,5,6,7,8\n".toList ++ [0xFF])))],
    [], []⟩

/-- What is reported about the last line, at this position. -/
def headedReason (byte : Nat) : String :=
  s!"CSV parse error: record 2 (line 3, field: 0, byte: {byte}): " ++
    "invalid utf-8: invalid UTF-8 in field 0 near byte index 0"

/-- Below a heading that is no text and below one that is, the same record is rejected, at positions
three bytes apart. -/
theorem loadFile_heading_headedFile :
    Csv.IsHeading [0xFF, 0x2C] ∧ Csv.IsHeading (Utf8.encode "rows1".toList) ∧
    ∃ defect : Defect,
      loadFile (headedFile [0xFF, 0x2C]) ⟨[0x66]⟩ =
        .error (.dataFormat 3 (defect.moved 2).reason) ∧
      loadFile (headedFile (Utf8.encode "rows1".toList)) ⟨[0x66]⟩ =
        .error (.dataFormat 3 (defect.moved 5).reason) ∧
      (defect.moved 2).reason = headedReason 19 ∧ (defect.moved 5).reason = headedReason 22 := by
  have h₁ : Csv.IsHeading [0xFF, 0x2C] := ⟨by decide, by decide, by decide +kernel⟩
  have h₂ : Csv.IsHeading (Utf8.encode "rows1".toList) :=
    ⟨by decide, by decide, by decide +kernel⟩
  have hget : ∀ line, (headedFile line).get ⟨[0x66]⟩ = .ok (.file (line ++ Csv.lineFeed ::
      (Utf8.encode "1,2,3,4,5,6,7,8\n".toList ++ [0xFF]))) := fun _ => rfl
  have herror₁ : loadFile (headedFile [0xFF, 0x2C]) ⟨[0x66]⟩ =
      .error (.dataFormat 3 (headedReason 19)) := by decide +kernel
  have herror₂ : loadFile (headedFile (Utf8.encode "rows1".toList)) ⟨[0x66]⟩ =
      .error (.dataFormat 3 (headedReason 22)) := by decide +kernel
  rcases loadFile_heading h₁ h₂ _ (hget _) (hget _) with ⟨t, hok, -⟩ | ⟨line, defect, hfirst, hlast⟩
  · rw [herror₁] at hok
    cases hok
  · rw [herror₁, Except.error.injEq, Fault.dataFormat.injEq] at hfirst
    rw [herror₂, Except.error.injEq, Fault.dataFormat.injEq] at hlast
    obtain ⟨rfl, hfirst⟩ := hfirst
    exact ⟨h₁, h₂, defect, hfirst ▸ herror₁, hlast.2 ▸ herror₂, hfirst.symm, hlast.2.symm⟩

end Table

end TimingChart
