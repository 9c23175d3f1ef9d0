import TimingChart.Proofs.Bench.Cells

/-! # Reasons that name a field

A field that does not belong into its column is named in the reason that loading reports. The reason
is a single line, and the text of the field is read back from it, whatever it is. -/

namespace TimingChart

namespace Table

open Load (Gives FirstDefect)

/-- In the first record that gives no run, which has eight texts, the leftmost one that does not
belong into its column is this one, in the column with this header and with this fault. -/
inductive HasUnfitField (content : Bytes) (header : String) (text : List Char)
    (fault : FieldFault) : Prop where
  | intro (before : List Csv.Record) (bad : Csv.Record) (after : List Csv.Record) (line : Nat)
      (hrecords : (Csv.records content).drop 1 = before ++ bad :: after)
      (hbefore : ∀ r ∈ before, ∃ run, Gives r run)
      (hbad : FirstDefect (1 + before.length) bad ⟨line, .column header text fault⟩)

variable {fs : FileSystem} {p : Path} {content : Bytes} {header : String} {text : List Char}
  {fault : FieldFault}

theorem HasUnfitField.header_mem (h : HasUnfitField content header text fault) :
    header ∈ headers := by
  obtain ⟨before, bad, after, line, -, -, hbad⟩ := h
  exact hbad.header_mem

theorem HasUnfitField.loadFile_eq (h : HasUnfitField content header text fault)
    (hget : fs.get p = .ok (.file content)) :
    ∃ line, loadFile fs p =
      .error (.dataFormat line (columnReason header text fault.message)) := by
  obtain ⟨before, bad, after, line, hrecords, hbefore, hbad⟩ := h
  exact ⟨line, (loadFile_error_iff_of_get hget).mpr
    ⟨before, bad, after, _, hrecords, hbefore, hbad, rfl⟩⟩

/-- Where loading fails on a field that does not belong into its column, the reason is a single line
without control characters, and the text of the field is read back from it. So no other text of a
field leads to this reason, in whatever column and for whatever fault. -/
theorem loadFile_unfitField (hget : fs.get p = .ok (.file content))
    (hfield : HasUnfitField content header text fault) :
    ∃ line reason, loadFile fs p = .error (.dataFormat line reason) ∧
      IsOneLine reason.toList ∧ Quoted.first? reason.toList = some text ∧
      ∀ fs' p' content' header' text' fault' line' reason',
        FileSystem.get fs' p' = .ok (.file content') →
        HasUnfitField content' header' text' fault' →
        loadFile fs' p' = .error (.dataFormat line' reason') →
          text ≠ text' → reason ≠ reason' := by
  obtain ⟨line, hload⟩ := hfield.loadFile_eq hget
  have hread : Quoted.first? (columnReason header text fault.message).toList = some text :=
    first?_columnReason hfield.header_mem
  have hmessage : IsOneLine fault.message.toList := (FieldFault.isCalled_iff.mpr rfl).isOneLine
  refine ⟨line, _, hload, isOneLine_columnReason hfield.header_mem hmessage, hread, ?_⟩
  intro fs' p' content' header' text' fault' line' reason' hget' hfield' hload' hne heq
  obtain ⟨line'', hload''⟩ := hfield'.loadFile_eq hget'
  rw [hload', Except.error.injEq, Fault.dataFormat.injEq] at hload''
  have hread' : Quoted.first? (columnReason header' text' fault'.message).toList = some text' :=
    first?_columnReason hfield'.header_mem
  rw [heq, hload''.2, hread'] at hread
  exact hne (Option.some.inj hread).symm

/-- A first line and a record with this text in its second field. -/
def unfitContent (text : List Char) : Bytes :=
  Utf8.encode ("h\n1,".toList ++ text ++ ",3,4,5,6,7,8\n".toList)

def unfitFile (text : List Char) : FileSystem :=
  ⟨[([[0x66]], .file (unfitContent text))], [], []⟩

theorem hasUnfitField_unfitContent {text : List Char}
    (hrecords : (Csv.records (unfitContent text)).drop 1 =
      [⟨[[0x31], Utf8.encode text, [0x33], [0x34], [0x35], [0x36], [0x37], [0x38]], 1, 2⟩])
    (htext : Load.fieldText? (Utf8.encode text) = some text)
    (hfault : Load.columnFault? 1 text = some (.integer .invalidDigit)) :
    HasUnfitField (unfitContent text) "cols1" text (.integer .invalidDigit) := by
  have hfits : Load.FitsBut 1 text
      ⟨[[0x31], Utf8.encode text, [0x33], [0x34], [0x35], [0x36], [0x37], [0x38]], 1, 2⟩ := by
    refine Load.spells_oneToEight.fitsBut (by decide) ?_
    simp only [List.mapM_cons, htext]
    rfl
  exact .intro [] _ [] _ hrecords (by simp) (hfits.firstDefect rfl hfault 1)

/-- A separator of lines in a field, and in another file the escape that it is reported as. -/
theorem loadFile_unfitField_separator :
    ∃ reason reason',
      loadFile (unfitFile ['a', '\u2028', 'b']) ⟨[0x66]⟩ = .error (.dataFormat 2 reason) ∧
      loadFile (unfitFile "a\\u\x7b2028\x7db".toList) ⟨[0x66]⟩ = .error (.dataFormat 2 reason') ∧
      reason = "column cols1 = \"a\\u\x7b2028\x7db\": invalid digit found in string" ∧
      IsOneLine reason.toList ∧ Quoted.first? reason.toList = some ['a', '\u2028', 'b'] ∧
      reason ≠ reason' := by
  have hget : ∀ text, (unfitFile text).get ⟨[0x66]⟩ = .ok (.file (unfitContent text)) :=
    fun _ => rfl
  have hfield : HasUnfitField (unfitContent ['a', '\u2028', 'b']) "cols1" ['a', '\u2028', 'b']
      (.integer .invalidDigit) :=
    hasUnfitField_unfitContent (by decide +kernel) (by decide +kernel) (by decide +kernel)
  have hfield' : HasUnfitField (unfitContent "a\\u\x7b2028\x7db".toList) "cols1"
      "a\\u\x7b2028\x7db".toList (.integer .invalidDigit) :=
    hasUnfitField_unfitContent (by decide +kernel) (by decide +kernel) (by decide +kernel)
  have hload : loadFile (unfitFile ['a', '\u2028', 'b']) ⟨[0x66]⟩ = .error (.dataFormat 2
      "column cols1 = \"a\\u\x7b2028\x7db\": invalid digit found in string") := by
    decide +kernel
  have hload' : loadFile (unfitFile "a\\u\x7b2028\x7db".toList) ⟨[0x66]⟩ = .error (.dataFormat 2
      "column cols1 = \"a\\\\u\x7b2028\x7db\": invalid digit found in string") := by
    decide +kernel
  rcases loadFile_unfitField (hget _) hfield with ⟨line, reason, hreason, hone, hread, hothers⟩
  rw [hload, Except.error.injEq, Fault.dataFormat.injEq] at hreason
  rcases hreason with ⟨-, rfl⟩
  exact ⟨_, _, hload, hload', rfl, hone, hread,
    hothers _ _ _ _ _ _ _ _ (hget _) hfield' hload' (by decide)⟩

end Table

end TimingChart
