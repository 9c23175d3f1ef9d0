import TimingChart.Proofs.Bench.Loading
import TimingChart.Proofs.Csv.Splitting
import TimingChart.Proofs.Decimal.Characters

/-! # Tables that are written and loaded

The text form of a table is a sheet of bare fields, so that loading it gives the same table, value
for value. -/

namespace TimingChart

/-! ## Fields -/

theorem Record.isPlain_of_mem_fields {r : Record} {field : List Char} (hfield : field ∈ r.fields) :
    ∀ c ∈ field, IsPlain c := by
  simp only [fields, List.mem_cons, List.not_mem_nil, or_false] at hfield
  rcases hfield with rfl | rfl | rfl | rfl | rfl | rfl | rfl | rfl
  all_goals first
    | exact fun c => isPlain_of_mem_integerText
    | exact fun c => isPlain_of_mem_shortText

/-! ## Bare fields -/

namespace Csv

/-- No byte of a plain text ends a field. -/
theorem bare_of_mem_encode {text : List Char} (h : ∀ c ∈ text, IsPlain c) {b : UInt8}
    (hb : b ∈ Utf8.encode text) : b ≠ comma ∧ isLineEnd b = false := by
  obtain ⟨hlow, _⟩ := toNat_of_mem_encode h hb
  have hne : ∀ other : UInt8, ¬ 0x2D ≤ other.toNat → b ≠ other := by
    intro other hother heq
    subst heq
    exact hother hlow
  refine ⟨hne comma (by decide), ?_⟩
  rw [isLineEnd, Bool.or_eq_false_iff, decide_eq_false_iff_not, decide_eq_false_iff_not]
  exact ⟨hne lineFeed (by decide), hne carriageReturn (by decide)⟩

theorem head?_encode_ne_quote {text : List Char} (h : ∀ c ∈ text, IsPlain c) :
    (Utf8.encode text).head? ≠ some quote := by
  intro hquote
  obtain ⟨hlow, _⟩ := toNat_of_mem_encode h (List.mem_of_mem_head? hquote)
  exact absurd hlow (by decide)

/-- A text of plain characters, written as it is. -/
def Spelling.ofPlain (text : List Char) (h : ∀ c ∈ text, IsPlain c) : Spelling :=
  .bare (Utf8.encode text) (fun _ => bare_of_mem_encode h) (head?_encode_ne_quote h)

theorem encode_append (text more : List Char) :
    Utf8.encode (text ++ more) = Utf8.encode text ++ Utf8.encode more :=
  List.flatMap_append

theorem encode_comma_cons (text : List Char) :
    Utf8.encode (',' :: text) = comma :: Utf8.encode text := rfl

theorem exists_spellings (fields : List (List Char)) (h : ∀ field ∈ fields, ∀ c ∈ field, IsPlain c) :
    ∃ others : List Spelling, others.map Spelling.content = fields.map Utf8.encode ∧
      others.flatMap (fun s => comma :: s.bytes) =
        Utf8.encode (fields.flatMap fun field => ',' :: field) := by
  induction fields with
  | nil => exact ⟨[], rfl, rfl⟩
  | cons field fields ih =>
      obtain ⟨hfield, hfields⟩ := List.forall_mem_cons.mp h
      obtain ⟨others, hcontent, hbytes⟩ := ih hfields
      refine ⟨Spelling.ofPlain field hfield :: others, ?_, ?_⟩
      · rw [List.map_cons, List.map_cons, hcontent]
        rfl
      · rw [List.flatMap_cons, List.flatMap_cons, hbytes, encode_append, encode_comma_cons]
        rfl

theorem intercalate_comma (first : List Char) (others : List (List Char)) :
    [','].intercalate (first :: others) = first ++ others.flatMap fun field => ',' :: field := by
  induction others generalizing first with
  | nil => simp [List.intercalate]
  | cons second others ih =>
      rw [List.intercalate_cons_cons, ih, List.flatMap_cons]
      simp

/-- A line of plain fields, unless it is empty. -/
theorem exists_line (fields : List (List Char)) (hne : ∃ field ∈ fields.head?, field ≠ [])
    (h : ∀ field ∈ fields, ∀ c ∈ field, IsPlain c) :
    ∃ l : EndedLine, l.line.content = fields.map Utf8.encode ∧
      l.bytes = Utf8.encode (csvLine fields) := by
  cases fields with
  | nil => simp at hne
  | cons first others =>
      obtain ⟨hfirst, hothers⟩ := List.forall_mem_cons.mp h
      obtain ⟨spellings, hcontent, hbytes⟩ := exists_spellings others hothers
      have hvisible : (Spelling.ofPlain first hfirst).bytes ≠ [] := by
        obtain ⟨field, hhead, hfield⟩ := hne
        cases hhead
        obtain ⟨c, rest, rfl⟩ := List.exists_cons_of_ne_nil hfield
        have hc := encode_of_isPlain (hfirst c List.mem_cons_self)
        simp [Spelling.ofPlain, Spelling.bytes, Utf8.encode, hc]
      refine ⟨⟨⟨Spelling.ofPlain first hfirst, spellings, fun _ => hvisible⟩, .lineFeed, []⟩,
        ?_, ?_⟩
      · rw [Line.content, List.map_cons, List.map_cons, hcontent]
        rfl
      · rw [csvLine, intercalate_comma, encode_append, encode_append, ← hbytes]
        rfl

theorem exists_lines (lines : List (List (List Char)))
    (hne : ∀ fields ∈ lines, ∃ field ∈ fields.head?, field ≠ [])
    (h : ∀ fields ∈ lines, ∀ field ∈ fields, ∀ c ∈ field, IsPlain c) :
    ∃ ended : List EndedLine,
      ended.map (fun l => l.line.content) = lines.map (List.map Utf8.encode) ∧
      ended.flatMap EndedLine.bytes = Utf8.encode (lines.flatMap csvLine) := by
  induction lines with
  | nil => exact ⟨[], rfl, rfl⟩
  | cons fields lines ih =>
      obtain ⟨hnefirst, hnerest⟩ := List.forall_mem_cons.mp hne
      obtain ⟨hfirst, hrest⟩ := List.forall_mem_cons.mp h
      obtain ⟨l, hcontent, hbytes⟩ := exists_line fields hnefirst hfirst
      obtain ⟨ended, hcontents, hbytess⟩ := ih hnerest hrest
      refine ⟨l :: ended, ?_, ?_⟩
      · rw [List.map_cons, List.map_cons, hcontent, hcontents]
      · rw [List.flatMap_cons, List.flatMap_cons, encode_append, hbytes, hbytess]

/-- Lines of plain fields are split into these fields. -/
theorem map_fields_records_csvLines (lines : List (List (List Char)))
    (hne : ∀ fields ∈ lines, ∃ field ∈ fields.head?, field ≠ [])
    (h : ∀ fields ∈ lines, ∀ field ∈ fields, ∀ c ∈ field, IsPlain c) :
    (Csv.records (Utf8.encode (lines.flatMap csvLine))).map Record.fields =
      lines.map (List.map Utf8.encode) := by
  obtain ⟨ended, hcontent, hbytes⟩ := exists_lines lines hne h
  have hwrites : Sheet.Writes ⟨false, [], ended, none⟩ (lines.map (List.map Utf8.encode)) := by
    constructor
    · simpa [Sheet.content, Sheet.lines, Function.comp_def] using hcontent
    · -- a byte order mark begins with a byte that is not ASCII
      intro _ record hrecord field hfield hmark
      rw [List.head?_map] at hrecord
      obtain ⟨fields, hfields, rfl⟩ := Option.map_eq_some_iff.mp hrecord
      rw [List.head?_map] at hfield
      obtain ⟨text, htext, rfl⟩ := Option.map_eq_some_iff.mp hfield
      have hplain := h fields (List.mem_of_mem_head? hfields) text (List.mem_of_mem_head? htext)
      obtain ⟨rest, hrest⟩ := hmark
      have hmem : 0xEF ∈ Utf8.encode text := by
        rw [← hrest]
        exact List.mem_cons_self
      exact absurd (toNat_of_mem_encode hplain hmem).2 (by decide)
  have hsheet : Sheet.bytes ⟨false, [], ended, none⟩ = Utf8.encode (lines.flatMap csvLine) := by
    simpa [Sheet.bytes, Sheet.body, lineEndBytes] using hbytes
  rw [← hsheet]
  exact map_fields_records hwrites

end Csv

/-! ## Reading the fields -/

namespace Load

theorem fieldText?_encode {text : List Char} (htext : ∀ c ∈ text, IsPlain c) :
    fieldText? (Utf8.encode text) = some text := by
  rw [fieldText?_eq, Utf8.decode?_encode, Option.map_some,
    Blank.trimBy_of_forall fun c hc => isBlank_of_isPlain (htext c hc)]

/-- A decimal form has no letter, so that it is not taken for digits of base sixteen. -/
theorem readCount_integerText (n : Int64) : readCount (integerText n.toInt) = .ok n := by
  rw [readCount]
  · exact Numeral.readInt64_integerText n
  · intro digits htext
    have hx : 'x' ∈ integerText n.toInt := by simp [htext]
    rw [integerText] at hx
    split at hx
    · rcases List.mem_cons.mp hx with hx | hx
      · cases hx
      · exact absurd (isDigit_of_mem_toDigits hx) (by decide)
    · exact absurd (isDigit_of_mem_toDigits hx) (by decide)

theorem spells_fields (run : Record) : Spells run.fields run :=
  .intro (readCount_integerText _) (readCount_integerText _) (readCount_integerText _)
    (readCount_integerText _) (Binary64.read_shortText _) (Binary64.read_shortText _)
    (Binary64.read_shortText _) (Binary64.read_shortText _)

theorem mapM_fieldText?_encode (texts : List (List Char))
    (h : ∀ text ∈ texts, ∀ c ∈ text, IsPlain c) :
    (texts.map Utf8.encode).mapM fieldText? = some texts := by
  induction texts with
  | nil => rfl
  | cons text texts ih =>
      obtain ⟨htext, htexts⟩ := List.forall_mem_cons.mp h
      simp [List.mapM_cons, fieldText?_encode htext, ih htexts]

/-- A record with the fields of a run gives this run. -/
theorem gives_of_fields {r : Csv.Record} {run : Record}
    (h : r.fields = run.fields.map Utf8.encode) : Gives r run := by
  refine ⟨run.fields, ?_, spells_fields run⟩
  rw [h]
  exact mapM_fieldText?_encode _ fun _ => Record.isPlain_of_mem_fields

end Load

/-! ## Main result -/

namespace Table

theorem fields_records_text {t : Table} {runs : List Record} (ht : t.HoldsRuns runs) :
    (Csv.records (Utf8.encode t.text)).map Csv.Record.fields =
      (headers.map String.toList :: runs.map Record.fields).map (List.map Utf8.encode) := by
  have htext : t.text =
      (headers.map String.toList :: runs.map Record.fields).flatMap csvLine := by
    rw [text, ht.records_eq, List.flatMap_cons, List.flatMap_map]
  rw [htext]
  apply Csv.map_fields_records_csvLines
  · rw [List.forall_mem_cons]
    refine ⟨⟨_, rfl, by decide⟩, fun fields hfields => ?_⟩
    obtain ⟨run, -, rfl⟩ := List.mem_map.mp hfields
    refine ⟨_, rfl, ?_⟩
    rw [integerText]
    split <;> simp
  · rw [List.forall_mem_cons]
    refine ⟨by decide, fun fields hfields => ?_⟩
    obtain ⟨run, -, rfl⟩ := List.mem_map.mp hfields
    exact fun _ => Record.isPlain_of_mem_fields

/-- A table that was built run by run is loaded from its text as the same table. -/
theorem loadFile_text (runs : List Record) (fs : FileSystem) (p : Path)
    (h : fs.get p = .ok (.file (Utf8.encode (runs.foldl push empty).text))) :
    loadFile fs p = .ok (runs.foldl push empty) ∧ (runs.foldl push empty).records = runs := by
  have ht : (runs.foldl push empty).HoldsRuns runs := holdsRuns_ofList runs
  have hfields := fields_records_text ht
  have hgives : List.Forall₂ Load.Gives
      ((Csv.records (Utf8.encode (runs.foldl push empty).text)).drop 1) runs := by
    have hsame : List.Forall₂ (· = ·)
        (((Csv.records (Utf8.encode (runs.foldl push empty).text)).drop 1).map
          Csv.Record.fields)
        (runs.map fun run => run.fields.map Utf8.encode) := by
      rw [List.forall₂_eq_eq_eq, List.map_drop, hfields, List.map_cons, List.drop_one,
        List.tail_cons, List.map_map]
      rfl
    rw [List.forall₂_map_left_iff, List.forall₂_map_right_iff] at hsame
    exact hsame.imp fun _ _ => Load.gives_of_fields
  exact ⟨(loadFile_ok_iff_of_get h).mpr ⟨runs, hgives, ht⟩, ht.records_eq⟩

/-- The least and the greatest integers and doubles, both zeros, a power of two, and what is not a
number. -/
def extremeRuns : List Record :=
  [⟨.minValue, .maxValue, .ofInt 0, .ofInt (-1), .ofBits 0x8000000000000000, .ofBits 0,
      .ofBits 1, .ofBits 0xFFEFFFFFFFFFFFFF⟩,
    ⟨.maxValue, .minValue, .ofInt 7, .ofInt 10, .nan, .infinite false, .infinite true,
      .ofBits 0x0020000000000000⟩]

theorem loadFile_text_extremeRuns :
    FileSystem.get
        ⟨[([[0x66]], .file (Utf8.encode (extremeRuns.foldl push empty).text))], [], []⟩
        ⟨[0x66]⟩ =
      .ok (.file (Utf8.encode (extremeRuns.foldl push empty).text)) ∧
    loadFile ⟨[([[0x66]], .file (Utf8.encode (extremeRuns.foldl push empty).text))], [], []⟩
        ⟨[0x66]⟩ =
      .ok (extremeRuns.foldl push empty) ∧
    (extremeRuns.foldl push empty).records = extremeRuns :=
  ⟨rfl, loadFile_text extremeRuns _ _ rfl⟩

end Table

end TimingChart
