import TimingChart.Proofs.Csv.Positions

/-! # More bytes in front

What stands in front of a record boundary moves the records behind it by its bytes and its line
feeds, and is forgotten otherwise. A heading is one line, so it moves them by the bytes only. -/

namespace TimingChart.Csv

/-- The record when there are so many more bytes in front of it. -/
def Record.moved (bytes : Nat) (r : Record) : Record := { r with offset := r.offset + bytes }

namespace Reader

/-- The reader when it has read so many more bytes before all others, and these records in them. -/
def behind (r : Reader) (bytes : Nat) (older : List Record) : Reader :=
  { r with
    offset := r.offset + bytes
    startOffset := r.startOffset + bytes
    recordsReversed := r.recordsReversed.map (Record.moved bytes) ++ older }

section Behind

variable (r : Reader) (bytes : Nat) (older : List Record) (b : UInt8)

theorem advance_behind : (r.behind bytes older).advance b = (r.advance b).behind bytes older := by
  simp only [advance, behind, Nat.add_right_comm]

theorem stepBare_behind :
    (r.behind bytes older).stepBare b = (r.stepBare b).behind bytes older := by
  unfold stepBare
  split
  · rfl
  · split
    · rfl
    · rfl

theorem stepStart_behind :
    (r.behind bytes older).stepStart b = (r.stepStart b).behind bytes older := by
  unfold stepStart
  split
  · rfl
  · exact r.stepBare_behind bytes older b

/-- The next byte is read in the same way. -/
theorem step_behind : (r.behind bytes older).step b = (r.step b).behind bytes older := by
  have hplace : ((r.advance b).behind bytes older).place = (r.advance b).place := rfl
  simp only [step, advance_behind, hplace]
  cases (r.advance b).place with
  | between =>
      simp only
      split
      · rfl
      · exact stepStart_behind _ bytes older b
  | fieldStart => exact stepStart_behind _ bytes older b
  | bare => exact stepBare_behind _ bytes older b
  | quoted =>
      simp only
      split
      · rfl
      · rfl
  | quoteSeen =>
      simp only
      split
      · rfl
      · exact stepBare_behind _ bytes older b

theorem run_behind (more : Bytes) :
    (r.behind bytes older).run more = (r.run more).behind bytes older := by
  induction more generalizing r with
  | nil => rfl
  | cons b more ih => rw [run_cons, run_cons, step_behind, ih]

theorem finish_behind :
    (r.behind bytes older).finish = older.reverse ++ r.finish.map (Record.moved bytes) := by
  have hplace : (r.behind bytes older).place = r.place := rfl
  have hrecord : (r.behind bytes older).record = r.record.moved bytes := rfl
  by_cases hbetween : r.place = .between
  · simp [finish, hbetween, behind]
  · rw [finish_of_ne (hplace ▸ hbetween), finish_of_ne hbetween, hrecord]
    simp [behind]

end Behind

/-! ## One line of bytes -/

variable {r : Reader} {b : UInt8}

theorem offset_stepBare (r : Reader) (b : UInt8) : (r.stepBare b).offset = r.offset := by
  unfold stepBare
  split
  · rfl
  · split
    · rfl
    · rfl

theorem offset_stepStart (r : Reader) (b : UInt8) : (r.stepStart b).offset = r.offset := by
  unfold stepStart
  split
  · rfl
  · exact r.offset_stepBare b

theorem offset_step (r : Reader) (b : UInt8) : (r.step b).offset = r.offset + 1 := by
  unfold step
  dsimp only
  split
  · split
    · rfl
    · exact offset_stepStart _ b
  · exact offset_stepStart _ b
  · exact offset_stepBare _ b
  · split
    · rfl
    · rfl
  · split
    · rfl
    · exact offset_stepBare _ b

/-- Every byte is counted. -/
theorem offset_run (r : Reader) (bytes : Bytes) :
    (r.run bytes).offset = r.offset + bytes.length := by
  induction bytes generalizing r with
  | nil => rfl
  | cons b bytes ih =>
      rw [run_cons, ih, offset_step, List.length_cons, Nat.add_right_comm, Nat.add_assoc]

/-- A line end outside of quotes ends the record that has begun. -/
theorem step_of_inLine (h : r.InLine) (hb : isLineEnd b) : r.step b = (r.advance b).endRecord := by
  have hcomma : b ≠ comma := by
    rintro rfl
    cases hb
  have hquote : b ≠ quote := by
    rintro rfl
    cases hb
  have hkept : (r.advance b).place = r.place := rfl
  have hbare : (r.advance b).stepBare b = (r.advance b).endRecord := by
    rw [stepBare, if_neg hcomma, if_pos hb]
  simp only [step, hkept]
  rcases h with hplace | hplace
  · simpa only [hplace] using hbare
  · simpa only [hplace, stepStart, if_neg hquote] using hbare

end Reader

/-! ## Headings -/

/-- A heading: bytes that are one record together with the end of their line, whatever they mean. -/
structure IsHeading (line : Bytes) : Prop where
  ne_nil : line ≠ []
  unmarked : ¬ byteOrderMark <+: line
  plain : ∀ b ∈ line, b ≠ quote ∧ isLineEnd b = false

variable {line : Bytes}

theorem IsHeading.isFirstLine (h : IsHeading line) : IsFirstLine (line ++ [lineFeed]) :=
  ⟨line, .lineFeed, rfl, h.ne_nil, fun heq => h.unmarked (heq ▸ List.prefix_rfl), h.plain⟩

/-- The records below a first line, as if there were nothing on it but its line feed. -/
def recordsBelow (rest : Bytes) : List Record := ((Reader.start 1 1).run rest).finish

/-- Behind a heading the reader has forgotten all of it but its length. -/
theorem IsHeading.readerAfter (h : IsHeading line) :
    ∃ first, readerAfter (line ++ [lineFeed]) =
      (Reader.start 1 1).behind line.length [first] := by
  have hread : Csv.readerAfter line = (firstReader 0).run line := by
    rw [readerAfter_eq, skipMark_of_unmarked h.unmarked]
  have hlong : Csv.readerAfter (line ++ [lineFeed]) = (Csv.readerAfter line).step lineFeed := by
    have hmark : byteOrderMark <+: line ++ [lineFeed] → byteOrderMark <+: line :=
      mark_of_mark_append line fun b hb => .inr (lineEnd_head? .lineFeed [] b hb)
    rw [Csv.readerAfter, skipMark_append hmark, Reader.run_append]
    rfl
  have hinLine : (Csv.readerAfter line).InLine ∧ (Csv.readerAfter line).recordsReversed = [] := by
    obtain ⟨b, bytes, rfl⟩ := List.exists_cons_of_ne_nil h.ne_nil
    obtain ⟨⟨hquote, hend⟩, hrest⟩ := List.forall_mem_cons.mp h.plain
    have hfirst := Reader.inLine_step (r := firstReader 0) (.inl rfl) hquote hend
    obtain ⟨hlast, hsame⟩ := Reader.inLine_run hfirst.1 hrest
    rw [hread, Reader.run_cons]
    exact ⟨hlast, hsame.trans hfirst.2⟩
  obtain ⟨hplace, hrecords⟩ := hinLine
  have hlineFeeds : (Csv.readerAfter line).lineFeeds = 0 := by
    have hcount := (tracks_readerAfter line).lineFeeds_eq
    rw [skipMark_of_unmarked h.unmarked] at hcount
    rw [hcount, List.count_eq_zero]
    intro hmem
    exact absurd (h.plain _ hmem).2 (by decide)
  have hoffset : (Csv.readerAfter line).offset = line.length := by
    rw [hread, Reader.offset_run]
    exact Nat.zero_add _
  refine ⟨((Csv.readerAfter line).advance lineFeed).record, ?_⟩
  rw [hlong, Reader.step_of_inLine hplace (by decide)]
  simp [Reader.endRecord, Reader.advance, Reader.behind, Reader.start, hlineFeeds, hoffset, hrecords,
    Nat.add_comm]

/-- The records below a heading are the same for all headings, but for its bytes. -/
theorem IsHeading.records_append (h : IsHeading line) (rest : Bytes) :
    ∃ first, records (line ++ lineFeed :: rest) =
      first :: (recordsBelow rest).map (Record.moved line.length) := by
  obtain ⟨first, hfirst⟩ := h.readerAfter
  refine ⟨first, ?_⟩
  rw [List.append_cons, records_eq_finish, h.isFirstLine.readerAfter_append, hfirst,
    Reader.run_behind, Reader.finish_behind]
  rfl

end TimingChart.Csv
