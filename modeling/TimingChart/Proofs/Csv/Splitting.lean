import TimingChart.Proofs.Csv.Writing
import TimingChart.Proofs.Text.Trimming

/-! # Splitting undoes writing

The reader is followed through a written file byte by byte, field by field and line by line. What it
has collected is stated in order and without positions. -/

namespace TimingChart.Csv

/-- Outside of quotes, a comma ends the field. -/
def Place.IsOutside (place : Place) : Prop := place ≠ .quoted

/-- Inside of a record but outside of quotes, a line end ends the record. -/
def Place.IsInside (place : Place) : Prop := place ≠ .quoted ∧ place ≠ .between

/-- Where the next field begins. -/
def Place.IsStart (place : Place) : Prop := place = .between ∨ place = .fieldStart

namespace Reader

/-- Where a reader is, and what it has collected: the field and the record at hand, and the records
before them. -/
structure Holds (r : Reader) (place : Place) (field : Bytes) (fields : List Bytes)
    (records : List (List Bytes)) : Prop where
  place_eq : r.place = place
  field_eq : r.fieldReversed = field.reverse
  fields_eq : r.fieldsReversed = fields.reverse
  records_eq : r.recordsReversed.map Record.fields = records.reverse

variable {r : Reader} {place : Place} {field : Bytes} {fields : List Bytes}
  {records : List (List Bytes)} {b : UInt8}

@[simp] theorem run_nil (r : Reader) : r.run [] = r := rfl

@[simp] theorem run_cons (r : Reader) (b : UInt8) (bytes : Bytes) :
    r.run (b :: bytes) = (r.step b).run bytes := rfl

theorem run_append (r : Reader) (bytes more : Bytes) :
    r.run (bytes ++ more) = (r.run bytes).run more := by
  simp [run, List.foldl_append]

namespace Holds

/-! ## What the actions collect -/

theorem advance (h : r.Holds place field fields records) (b : UInt8) :
    (r.advance b).Holds place field fields records :=
  ⟨h.place_eq, h.field_eq, h.fields_eq, h.records_eq⟩

theorem move (h : r.Holds place field fields records) (next : Place) :
    Holds { r with place := next } next field fields records :=
  ⟨rfl, h.field_eq, h.fields_eq, h.records_eq⟩

theorem collect (h : r.Holds place field fields records) (next : Place) (b : UInt8) :
    (r.collect next b).Holds next (field ++ [b]) fields records :=
  ⟨rfl, by simp [Reader.collect, h.field_eq], h.fields_eq, h.records_eq⟩

theorem endField (h : r.Holds place field fields records) :
    r.endField.Holds .fieldStart [] (fields ++ [field]) records :=
  ⟨rfl, rfl, by simp [Reader.endField, h.field_eq, h.fields_eq], h.records_eq⟩

theorem endRecord (h : r.Holds place field fields records) :
    r.endRecord.Holds .between [] [] (records ++ [fields ++ [field]]) :=
  ⟨rfl, rfl, rfl, by
    simp [Reader.endRecord, Reader.record, h.field_eq, h.fields_eq, h.records_eq]⟩

/-! ## Single bytes -/

theorem step_comma (h : r.Holds place field fields records) (hplace : place.IsOutside) :
    (r.step comma).Holds .fieldStart [] (fields ++ [field]) records := by
  have ha := h.advance comma
  have hbare : (r.advance comma).stepBare comma = (r.advance comma).endField := rfl
  have hstart : (r.advance comma).stepStart comma = (r.advance comma).endField := rfl
  simp only [step, ha.place_eq]
  cases place with
  | between => exact hstart ▸ ha.endField
  | fieldStart => exact hstart ▸ ha.endField
  | bare => exact hbare ▸ ha.endField
  | quoted => exact absurd rfl hplace
  | quoteSeen => exact hbare ▸ ha.endField

theorem step_lineEnd (h : r.Holds place field fields records) (hplace : place.IsInside)
    (hb : isLineEnd b) : (r.step b).Holds .between [] [] (records ++ [fields ++ [field]]) := by
  have ha := h.advance b
  have hcomma : b ≠ comma := by
    intro heq
    subst heq
    exact absurd hb (by decide)
  have hquote : b ≠ quote := by
    intro heq
    subst heq
    exact absurd hb (by decide)
  have hbare : (r.advance b).stepBare b = (r.advance b).endRecord := by
    rw [stepBare, if_neg hcomma, if_pos hb]
  simp only [step, ha.place_eq]
  cases place with
  | between => exact absurd rfl hplace.2
  | fieldStart =>
      rw [stepStart, if_neg hquote, hbare]
      exact ha.endRecord
  | bare =>
      rw [hbare]
      exact ha.endRecord
  | quoted => exact absurd rfl hplace.1
  | quoteSeen =>
      simp only [if_neg hquote, hbare]
      exact ha.endRecord

theorem step_spare (h : r.Holds .between field fields records) (hb : isLineEnd b) :
    (r.step b).Holds .between field fields records := by
  have ha := h.advance b
  simp only [step, ha.place_eq, hb, if_true]
  exact ha

theorem step_openQuote (h : r.Holds place field fields records) (hplace : place.IsStart) :
    (r.step quote).Holds .quoted field fields records := by
  have ha := h.advance quote
  simp only [step, ha.place_eq]
  rcases hplace with rfl | rfl
  · exact ha.move .quoted
  · exact ha.move .quoted

/-- A byte that neither ends the field nor opens quotes belongs to the field. -/
theorem step_plain (h : r.Holds place field fields records)
    (hplace : place = .bare ∨ place.IsStart ∧ b ≠ quote)
    (hb : b ≠ comma ∧ isLineEnd b = false) :
    (r.step b).Holds .bare (field ++ [b]) fields records := by
  have ha := h.advance b
  have hbare : (r.advance b).stepBare b = (r.advance b).collect .bare b := by
    rw [stepBare, if_neg hb.1, hb.2]
    rfl
  simp only [step, ha.place_eq]
  rcases hplace with rfl | ⟨rfl | rfl, hquote⟩
  · rw [hbare]
    exact ha.collect .bare b
  · rw [hb.2, stepStart, if_neg hquote, hbare]
    exact ha.collect .bare b
  · rw [stepStart, if_neg hquote, hbare]
    exact ha.collect .bare b

theorem step_inQuotes (h : r.Holds .quoted field fields records) (hb : b ≠ quote) :
    (r.step b).Holds .quoted (field ++ [b]) fields records := by
  have ha := h.advance b
  simp only [step, ha.place_eq, if_neg hb]
  exact ha.collect .quoted b

theorem step_closeQuote (h : r.Holds .quoted field fields records) :
    (r.step quote).Holds .quoteSeen field fields records := by
  have ha := h.advance quote
  simp only [step, ha.place_eq, if_true]
  exact ha.move .quoteSeen

theorem step_secondQuote (h : r.Holds .quoteSeen field fields records) :
    (r.step quote).Holds .quoted (field ++ [quote]) fields records := by
  have ha := h.advance quote
  simp only [step, ha.place_eq, if_true]
  exact ha.collect .quoted quote

/-! ## Fields -/

theorem run_plain (h : r.Holds .bare field fields records) {content : Bytes}
    (hcontent : ∀ b ∈ content, b ≠ comma ∧ isLineEnd b = false) :
    (r.run content).Holds .bare (field ++ content) fields records := by
  induction content generalizing r field with
  | nil => simpa using h
  | cons b content ih =>
      have hb := h.step_plain (.inl rfl) (hcontent b List.mem_cons_self)
      have hrest := ih hb fun c hc => hcontent c (List.mem_cons_of_mem _ hc)
      simpa using hrest

theorem run_doubleQuotes (h : r.Holds .quoted field fields records) (content : Bytes) :
    (r.run (doubleQuotes content)).Holds .quoted (field ++ content) fields records := by
  induction content generalizing r field with
  | nil => simpa [doubleQuotes] using h
  | cons b content ih =>
      rw [doubleQuotes_cons, run_append]
      by_cases hb : b = quote
      · rw [if_pos hb, hb]
        have hrest := ih h.step_closeQuote.step_secondQuote
        simpa using hrest
      · rw [if_neg hb]
        have hrest := ih (h.step_inQuotes hb)
        simpa using hrest

/-- A written field is read as what it stands for. Only an empty bare field before a record leaves
the reader where it was. -/
theorem run_spelling (s : Spelling) (h : r.Holds place [] fields records)
    (hplace : place.IsStart) :
    ∃ next : Place, (r.run s.bytes).Holds next s.content fields records ∧ next.IsOutside ∧
      (next = .between → place = .between ∧ s.bytes = []) := by
  have hstart : place.IsOutside := by rcases hplace with rfl | rfl <;> simp [Place.IsOutside]
  cases s with
  | quoted content =>
      refine ⟨.quoteSeen, ?_, by simp [Place.IsOutside], by simp⟩
      have hopen := h.step_openQuote hplace
      have hclose := (hopen.run_doubleQuotes content).step_closeQuote
      simpa [Spelling.bytes, Spelling.content, run_append] using hclose
  | bare content plain unquoted =>
      cases content with
      | nil => exact ⟨place, h, hstart, fun hnext => ⟨hnext, rfl⟩⟩
      | cons b content =>
          refine ⟨.bare, ?_, by simp [Place.IsOutside], by simp⟩
          have hquote : b ≠ quote := by
            intro heq
            subst heq
            exact unquoted rfl
          have hb := h.step_plain (.inr ⟨hplace, hquote⟩) (plain b List.mem_cons_self)
          have hrest := hb.run_plain fun c hc => plain c (List.mem_cons_of_mem _ hc)
          simpa [Spelling.bytes, Spelling.content] using hrest

theorem run_others (others : List Spelling) (h : r.Holds place field fields records)
    (hplace : place.IsOutside) :
    ∃ (next : Place) (front : List Bytes) (back : Bytes),
      (r.run (others.flatMap fun s => comma :: s.bytes)).Holds next back front records ∧
      front ++ [back] = fields ++ field :: others.map Spelling.content ∧ next.IsOutside ∧
      (next = .between → place = .between ∧ others = []) := by
  induction others generalizing r place field fields with
  | nil =>
      exact ⟨place, fields, field, by simpa using h, by simp, hplace, fun hnext => ⟨hnext, rfl⟩⟩
  | cons s others ih =>
      obtain ⟨middle, hs, hmiddle, hbetween⟩ :=
        (h.step_comma hplace).run_spelling s (.inr rfl)
      obtain ⟨next, front, back, hrest, hcontent, hnext, hnever⟩ := ih hs hmiddle
      refine ⟨next, front, back, ?_, ?_, hnext, ?_⟩
      · simpa [run_append] using hrest
      · simpa using hcontent
      · intro hn
        -- behind a comma the reader is never between records
        exact absurd (hbetween (hnever hn).1).1 (by simp)

/-! ## Lines -/

/-- After a written record, the reader has collected its fields and is inside of it. -/
theorem run_line (l : Line) (h : r.Holds .between [] [] records) :
    ∃ (next : Place) (front : List Bytes) (back : Bytes),
      (r.run l.bytes).Holds next back front records ∧ front ++ [back] = l.content ∧
      next.IsInside := by
  obtain ⟨middle, hfirst, hmiddle, hbetween⟩ := h.run_spelling l.first (.inl rfl)
  obtain ⟨next, front, back, hrest, hcontent, hnext, hnever⟩ := run_others l.others hfirst hmiddle
  refine ⟨next, front, back, ?_, by simpa [Line.content] using hcontent, hnext, ?_⟩
  · simpa [Line.bytes, run_append] using hrest
  · intro hn
    obtain ⟨hb, hothers⟩ := hnever hn
    exact l.visible hothers (hbetween hb).2

theorem run_spare (h : r.Holds .between [] [] records) {bytes : Bytes}
    (hbytes : ∀ b ∈ bytes, isLineEnd b) : (r.run bytes).Holds .between [] [] records := by
  induction bytes generalizing r with
  | nil => exact h
  | cons b bytes ih =>
      have hb := h.step_spare (hbytes b List.mem_cons_self)
      exact ih hb fun c hc => hbytes c (List.mem_cons_of_mem _ hc)

end Holds

end Reader

theorem isLineEnd_of_mem_lineEnd {e : LineEnd} {b : UInt8} (hb : b ∈ e.bytes) : isLineEnd b := by
  cases e <;> simp only [LineEnd.bytes, List.mem_cons, List.not_mem_nil, or_false] at hb
  · rw [hb]; rfl
  · rw [hb]; rfl
  · rcases hb with rfl | rfl <;> rfl

theorem isLineEnd_of_mem_lineEnds {ends : List LineEnd} {b : UInt8}
    (hb : b ∈ lineEndBytes ends) : isLineEnd b := by
  obtain ⟨e, _, hbe⟩ := List.mem_flatMap.mp hb
  exact isLineEnd_of_mem_lineEnd hbe

/-- A line end is one byte that ends a record, and possibly one to spare. -/
theorem LineEnd.exists_bytes (e : LineEnd) : ∃ b rest, e.bytes = b :: rest := by
  cases e <;> simp [LineEnd.bytes]

namespace Reader.Holds

variable {r : Reader} {records : List (List Bytes)}

theorem run_endedLine (l : EndedLine) (h : r.Holds .between [] [] records) :
    (r.run l.bytes).Holds .between [] [] (records ++ [l.line.content]) := by
  obtain ⟨next, front, back, hline, hcontent, hnext⟩ := h.run_line l.line
  obtain ⟨b, rest, hbytes⟩ := l.lineEnd.exists_bytes
  have hends : ∀ c ∈ b :: rest ++ lineEndBytes l.spare, isLineEnd c := by
    intro c hc
    rcases List.mem_append.mp hc with hc | hc
    · exact isLineEnd_of_mem_lineEnd (hbytes ▸ hc)
    · exact isLineEnd_of_mem_lineEnds hc
  have hend := hline.step_lineEnd hnext (hends b (by simp))
  have hrest : ∀ c ∈ rest ++ lineEndBytes l.spare, isLineEnd c := fun c hc =>
    hends c (by simpa using Or.inr (List.mem_append.mp hc))
  have hspare := hend.run_spare hrest
  rw [EndedLine.bytes, run_append, hbytes, ← hcontent]
  exact hspare

theorem run_endedLines (h : r.Holds .between [] [] records) (ended : List EndedLine) :
    (r.run (ended.flatMap EndedLine.bytes)).Holds .between [] []
      (records ++ ended.map fun l => l.line.content) := by
  induction ended generalizing r records with
  | nil => simpa using h
  | cons l ended ih =>
      have hrest := ih (h.run_endedLine l)
      simpa [run_append] using hrest

/-- A file may end between records or inside of one, but not in quotes. -/
theorem finish_between (h : r.Holds .between [] [] records) :
    r.finish.map Record.fields = records := by
  simp [finish, h.place_eq, h.records_eq]

theorem finish_inside {place : Place} {field : Bytes} {fields : List Bytes}
    (h : r.Holds place field fields records) (hplace : place.IsInside) :
    r.finish.map Record.fields = records ++ [fields ++ [field]] := by
  have hne : r.place ≠ .between := by
    rw [h.place_eq]
    exact hplace.2
  rw [finish]
  split
  · contradiction
  · simp [h.records_eq, h.field_eq, h.fields_eq, Reader.record]

theorem finish_run_body (s : Sheet) (h : r.Holds .between [] [] []) :
    (r.run s.body).finish.map Record.fields = s.content := by
  have hends : ∀ b ∈ lineEndBytes s.before, isLineEnd b := fun _ => isLineEnd_of_mem_lineEnds
  have hended := (h.run_spare hends).run_endedLines s.ended
  rw [Sheet.body, run_append, run_append]
  cases hlast : s.last with
  | none =>
      have hfinish := hended.finish_between
      simpa [Sheet.content, Sheet.lines, hlast, Function.comp_def] using hfinish
  | some l =>
      obtain ⟨next, front, back, hline, hcontent, hnext⟩ := hended.run_line l
      have hfinish := hline.finish_inside hnext
      simpa [Sheet.content, Sheet.lines, hlast, hcontent, Function.comp_def] using hfinish

end Reader.Holds

/-! ## The byte order mark -/

/-- What begins with a mark and goes on with a comma or a line end where a part of it ends begins
with a mark in that part. -/
theorem mark_of_mark_append (content : Bytes) {rest : Bytes}
    (hrest : ∀ b ∈ rest.head?, b = comma ∨ isLineEnd b)
    (h : byteOrderMark <+: content ++ rest) : byteOrderMark <+: content := by
  have hmark : ∀ b ∈ byteOrderMark, ¬ (b = comma ∨ isLineEnd b) := by decide
  rcases List.prefix_or_prefix_of_prefix (List.prefix_append content rest) h with hlong | hshort
  · obtain ⟨tail, htail⟩ := hlong
    cases tail with
    | nil =>
        rw [List.append_nil] at htail
        exact ⟨[], by rw [List.append_nil, htail]⟩
    | cons b tail =>
        have hb : b ∈ byteOrderMark := by simp [← htail]
        rw [← htail] at h
        obtain ⟨more, hmore⟩ := (List.prefix_append_right_inj content).mp h
        exact absurd (hrest b (by simp [← hmore])) (hmark b hb)
  · exact hshort

/-- A line begins with a mark only if its first field does. -/
theorem Line.not_mark_bytes (l : Line) (rest : Bytes)
    (hrest : ∀ b ∈ rest.head?, isLineEnd b) (hfirst : ¬ byteOrderMark <+: l.first.content) :
    ¬ byteOrderMark <+: l.bytes ++ rest := by
  intro h
  have hsep : ∀ b ∈ (l.others.flatMap (fun s => comma :: s.bytes) ++ rest).head?,
      b = comma ∨ isLineEnd b := by
    intro b hb
    cases hothers : l.others with
    | nil => exact .inr (hrest b (by simpa [hothers] using hb))
    | cons s others => exact .inl (by simpa [hothers, eq_comm] using hb)
  rw [Line.bytes, List.append_assoc] at h
  have hmark := mark_of_mark_append _ hsep h
  cases hs : l.first with
  | bare content plain unquoted =>
      rw [hs] at hmark hfirst
      exact hfirst hmark
  | quoted content =>
      rw [hs] at hmark
      obtain ⟨more, hmore⟩ := hmark
      simp [Spelling.bytes, byteOrderMark, quote] at hmore

theorem lineEnd_head? (e : LineEnd) (rest : Bytes) : ∀ b ∈ (e.bytes ++ rest).head?, isLineEnd b := by
  intro b hb
  apply isLineEnd_of_mem_lineEnd (e := e)
  cases e <;> simp_all [LineEnd.bytes]

theorem Sheet.not_mark_body (s : Sheet) {records : List (List Bytes)} (h : s.Writes records)
    (hmarked : s.marked = false) : ¬ byteOrderMark <+: s.body := by
  have hfirst : ∀ l ∈ s.lines.head?, ¬ byteOrderMark <+: l.first.content := by
    intro l hl
    refine h.unmistakable hmarked l.content ?_ l.first.content rfl
    rw [← h.content_eq, Sheet.content, List.head?_map, hl]
    rfl
  rw [Sheet.body]
  cases hbefore : s.before with
  | cons e before =>
      intro hmark
      rw [lineEndBytes, List.flatMap_cons, List.append_assoc] at hmark
      have hnil := mark_of_mark_append []
        (fun b hb => .inr (lineEnd_head? e _ b hb)) hmark
      simp [byteOrderMark] at hnil
  | nil =>
      cases hended : s.ended with
      | cons l ended =>
          have hl := l.line.not_mark_bytes
            (l.lineEnd.bytes ++ (lineEndBytes l.spare ++
              (ended.flatMap EndedLine.bytes ++ (s.last.map Line.bytes).getD [])))
            (lineEnd_head? l.lineEnd _) (hfirst l.line (by simp [Sheet.lines, hended]))
          simpa [lineEndBytes, EndedLine.bytes] using hl
      | nil =>
          cases hlast : s.last with
          | none => simp [lineEndBytes, byteOrderMark]
          | some l =>
              have hl := l.not_mark_bytes [] (by simp)
                (hfirst l (by simp [Sheet.lines, hended, hlast]))
              simpa [lineEndBytes] using hl

theorem Sheet.skipMark_bytes (s : Sheet) {records : List (List Bytes)} (h : s.Writes records) :
    (skipMark s.bytes).2 = s.body := by
  cases hmarked : s.marked with
  | true => simp [skipMark, Sheet.bytes, hmarked]
  | false => simp [skipMark, Sheet.bytes, hmarked, s.not_mark_body h hmarked]

/-- The records of a written file are those that were written. -/
theorem map_fields_records {s : Sheet} {records : List (List Bytes)} (h : s.Writes records) :
    (Csv.records s.bytes).map Record.fields = records := by
  have hbody := s.skipMark_bytes h
  rw [Csv.records]
  cases hskip : skipMark s.bytes with
  | mk skipped content =>
      rw [hskip] at hbody
      rw [← h.content_eq, show content = s.body from hbody]
      exact Reader.Holds.finish_run_body s ⟨rfl, rfl, rfl, rfl⟩

/-! ## Main result -/

/-- Any records can be written, and whatever way they are written, the reader gets exactly them; as
texts, their fields have lost the blanks around them. -/
theorem records_of_writes (records : List (List Bytes)) (hne : ∀ record ∈ records, record ≠ []) :
    (∃ s : Sheet, s.Writes records) ∧
    ∀ s : Sheet, s.Writes records →
      (Csv.records s.bytes).map Record.fields = records ∧
      (Csv.records s.bytes).map (fun r => (Load.fieldTexts 0 r.fields).toOption) =
        records.map fun fields =>
          fields.mapM fun field => (Utf8.decode? field).map (Blank.trimBy Blank.isBlank) := by
  refine ⟨exists_writes records hne, fun s h => ?_⟩
  have hfields := map_fields_records h
  refine ⟨hfields, ?_⟩
  rw [← hfields, List.map_map]
  exact List.map_congr_left fun r _ => Load.toOption_fieldTexts 0 r.fields

/-- A quote, a comma and a line end in quotes, empty fields, a line end to spare before the first
record, and a last record that the end of the file ends. -/
def mixedSheet : Sheet where
  marked := false
  before := [.carriageReturn]
  ended :=
    [⟨⟨.quoted [0x61, quote, comma, lineFeed], [.bare [] (by decide) (by decide)], by simp⟩,
      .both, [.lineFeed]⟩]
  last := some ⟨.quoted [], [.bare [0x20, quote] (by decide) (by decide)], by simp⟩

theorem records_of_writes_mixed :
    (∀ record ∈ [[[0x61, quote, comma, lineFeed], []], [[], [0x20, quote]]], record ≠ []) ∧
    mixedSheet.Writes [[[0x61, quote, comma, lineFeed], []], [[], [0x20, quote]]] ∧
    (Csv.records mixedSheet.bytes).map Record.fields =
      [[[0x61, quote, comma, lineFeed], []], [[], [0x20, quote]]] ∧
    (Csv.records mixedSheet.bytes).map (fun r => (Load.fieldTexts 0 r.fields).toOption) =
      [some [['a', '"', ','], []], some [[], ['"']]] := by
  have hne : ∀ record ∈ [[[0x61, quote, comma, lineFeed], []], [[], [0x20, quote]]],
      record ≠ [] := by decide
  have hwrites : mixedSheet.Writes [[[0x61, quote, comma, lineFeed], []], [[], [0x20, quote]]] :=
    ⟨rfl, by decide⟩
  obtain ⟨hfields, htexts⟩ := (records_of_writes _ hne).2 mixedSheet hwrites
  exact ⟨hne, hwrites, hfields, htexts.trans (by decide)⟩

end TimingChart.Csv
