import TimingChart.Proofs.Csv.Splitting

/-! # Reading on from a record boundary

Between two records the reader remembers nothing but what it has counted and the records it has
read. So the bytes behind a boundary are split in the same way whatever came before it, and the
records before it stay as they are. -/

namespace TimingChart.Csv

namespace Reader

/-! ## Readers that go on alike -/

/-- Two readers that have read the same since they had these records: they are at the same place
of a record of which they have collected the same. What they have counted may differ. -/
structure SameSince (before before' : List Record) (r s : Reader) : Prop where
  place_eq : r.place = s.place
  field_eq : r.fieldReversed = s.fieldReversed
  fields_eq : r.fieldsReversed = s.fieldsReversed
  records_eq : ∃ new new', r.recordsReversed = new ++ before ∧ s.recordsReversed = new' ++ before' ∧
    new.map Record.fields = new'.map Record.fields

variable {r s : Reader} {before before' : List Record}

/-- Where the file ends in a record, this is the last one. -/
theorem finish_of_ne (h : r.place ≠ .between) :
    r.finish = (r.record :: r.recordsReversed).reverse := by
  rw [finish]
  split
  · contradiction
  · rfl

namespace SameSince

theorem advance (h : r.SameSince before before' s) (b : UInt8) :
    (r.advance b).SameSince before before' (s.advance b) :=
  ⟨h.place_eq, h.field_eq, h.fields_eq, h.records_eq⟩

theorem move (h : r.SameSince before before' s) (place : Place) :
    SameSince before before' { r with place } { s with place } :=
  ⟨rfl, h.field_eq, h.fields_eq, h.records_eq⟩

theorem collect (h : r.SameSince before before' s) (place : Place) (b : UInt8) :
    (r.collect place b).SameSince before before' (s.collect place b) :=
  ⟨rfl, by rw [Reader.collect, Reader.collect, h.field_eq], h.fields_eq, h.records_eq⟩

theorem endField (h : r.SameSince before before' s) :
    r.endField.SameSince before before' s.endField :=
  ⟨rfl, rfl, by rw [Reader.endField, Reader.endField, h.field_eq, h.fields_eq], h.records_eq⟩

theorem fields_record (h : r.SameSince before before' s) : r.record.fields = s.record.fields := by
  rw [Reader.record, Reader.record, h.field_eq, h.fields_eq]

theorem endRecord (h : r.SameSince before before' s) :
    r.endRecord.SameSince before before' s.endRecord := by
  obtain ⟨new, new', hr, hs, hnew⟩ := h.records_eq
  refine ⟨rfl, rfl, rfl, r.record :: new, s.record :: new', ?_, ?_, ?_⟩
  · rw [Reader.endRecord, hr, List.cons_append]
  · rw [Reader.endRecord, hs, List.cons_append]
  · rw [List.map_cons, List.map_cons, h.fields_record, hnew]

theorem stepBare (h : r.SameSince before before' s) (b : UInt8) :
    (r.stepBare b).SameSince before before' (s.stepBare b) := by
  unfold Reader.stepBare
  split
  · exact h.endField
  · split
    · exact h.endRecord
    · exact h.collect .bare b

theorem stepStart (h : r.SameSince before before' s) (b : UInt8) :
    (r.stepStart b).SameSince before before' (s.stepStart b) := by
  unfold Reader.stepStart
  split
  · exact h.move .quoted
  · exact h.stepBare b

/-- The next byte is read in the same way. -/
theorem step (h : r.SameSince before before' s) (b : UInt8) :
    (r.step b).SameSince before before' (s.step b) := by
  have ha := h.advance b
  simp only [Reader.step, ha.place_eq]
  cases (s.advance b).place with
  | between =>
      simp only
      split
      · exact ha
      · exact ha.stepStart b
  | fieldStart => exact ha.stepStart b
  | bare => exact ha.stepBare b
  | quoted =>
      simp only
      split
      · exact ha.move .quoteSeen
      · exact ha.collect .quoted b
  | quoteSeen =>
      simp only
      split
      · exact ha.collect .quoted b
      · exact ha.stepBare b

theorem run (h : r.SameSince before before' s) (bytes : Bytes) :
    (r.run bytes).SameSince before before' (s.run bytes) := by
  induction bytes generalizing r s with
  | nil => exact h
  | cons b bytes ih => exact ih (h.step b)

/-- What the two readers have read since then are records with the same fields. -/
theorem finish (h : r.SameSince before before' s) :
    ∃ new new', r.finish = before.reverse ++ new ∧ s.finish = before'.reverse ++ new' ∧
      new.map Record.fields = new'.map Record.fields := by
  obtain ⟨new, new', hr, hs, hnew⟩ := h.records_eq
  have hreverse : new.reverse.map Record.fields = new'.reverse.map Record.fields := by
    rw [List.map_reverse, List.map_reverse, hnew]
  have hlast : (r.record :: new).reverse.map Record.fields =
      (s.record :: new').reverse.map Record.fields := by
    rw [List.map_reverse, List.map_reverse, List.map_cons, List.map_cons, h.fields_record, hnew]
  by_cases hplace : s.place = .between
  · simp only [Reader.finish, h.place_eq, hplace, hr, hs]
    exact ⟨_, _, List.reverse_append, List.reverse_append, hreverse⟩
  · have hrplace : r.place ≠ .between := h.place_eq ▸ hplace
    rw [finish_of_ne hrplace, finish_of_ne hplace, hr, hs, ← List.cons_append, ← List.cons_append]
    exact ⟨_, _, List.reverse_append, List.reverse_append, hlast⟩

end SameSince

/-! ## Boundaries -/

/-- Between records nothing has been collected. -/
def ForgetsBetween (r : Reader) : Prop :=
  r.place = .between → r.fieldReversed = [] ∧ r.fieldsReversed = []

theorem forgetsBetween_of_ne (h : r.place ≠ .between) : r.ForgetsBetween :=
  fun hbetween => absurd hbetween h

theorem forgetsBetween_stepBare (r : Reader) (b : UInt8) : (r.stepBare b).ForgetsBetween := by
  unfold stepBare
  split
  · exact forgetsBetween_of_ne (by simp [endField])
  · split
    · exact fun _ => ⟨rfl, rfl⟩
    · exact forgetsBetween_of_ne (by simp [collect])

theorem forgetsBetween_stepStart (r : Reader) (b : UInt8) : (r.stepStart b).ForgetsBetween := by
  unfold stepStart
  split
  · exact forgetsBetween_of_ne (by simp)
  · exact r.forgetsBetween_stepBare b

theorem ForgetsBetween.step (h : r.ForgetsBetween) (b : UInt8) : (r.step b).ForgetsBetween := by
  unfold Reader.step
  dsimp only
  split
  · split
    · exact h
    · exact forgetsBetween_stepStart _ b
  · exact forgetsBetween_stepStart _ b
  · exact forgetsBetween_stepBare _ b
  · split
    · exact forgetsBetween_of_ne (by simp)
    · exact forgetsBetween_of_ne (by simp [collect])
  · split
    · exact forgetsBetween_of_ne (by simp [collect])
    · exact forgetsBetween_stepBare _ b

theorem ForgetsBetween.run (h : r.ForgetsBetween) (bytes : Bytes) :
    (r.run bytes).ForgetsBetween := by
  induction bytes generalizing r with
  | nil => exact h
  | cons b bytes ih => exact ih (h.step b)

/-- At a boundary it does not matter what has been read so far. -/
theorem sameSince_of_between (hr : r.ForgetsBetween) (hs : s.ForgetsBetween)
    (hrplace : r.place = .between) (hsplace : s.place = .between) :
    r.SameSince r.recordsReversed s.recordsReversed s := by
  obtain ⟨hrfield, hrfields⟩ := hr hrplace
  obtain ⟨hsfield, hsfields⟩ := hs hsplace
  exact ⟨hrplace.trans hsplace.symm, hrfield.trans hsfield.symm, hrfields.trans hsfields.symm,
    [], [], rfl, rfl, rfl⟩

/-! ## A first line -/

/-- In a record and not in quotes. -/
def InLine (r : Reader) : Prop := r.place = .bare ∨ r.place = .fieldStart

/-- A byte that neither opens quotes nor ends the record belongs to the record. -/
theorem inLine_step {b : UInt8} (hplace : r.place = .between ∨ r.InLine) (hquote : b ≠ quote)
    (hend : isLineEnd b = false) :
    (r.step b).InLine ∧ (r.step b).recordsReversed = r.recordsReversed := by
  have hbare : ((r.advance b).stepBare b).InLine ∧
      ((r.advance b).stepBare b).recordsReversed = r.recordsReversed := by
    rw [stepBare, hend]
    split
    · exact ⟨.inr rfl, rfl⟩
    · exact ⟨.inl rfl, rfl⟩
  have hstart : (r.advance b).stepStart b = (r.advance b).stepBare b := by
    rw [stepStart, if_neg hquote]
  have hkept : (r.advance b).place = r.place := rfl
  simp only [step, hkept]
  rcases hplace with hplace | hplace | hplace
  · simpa only [hplace, hend, hstart, Bool.false_eq_true, if_false] using hbare
  · simpa only [hplace] using hbare
  · simpa only [hplace, hstart] using hbare

theorem inLine_run {bytes : Bytes} (hplace : r.InLine)
    (hbytes : ∀ b ∈ bytes, b ≠ quote ∧ isLineEnd b = false) :
    (r.run bytes).InLine ∧ (r.run bytes).recordsReversed = r.recordsReversed := by
  induction bytes generalizing r with
  | nil => exact ⟨hplace, rfl⟩
  | cons b bytes ih =>
      obtain ⟨⟨hquote, hend⟩, hrest⟩ := List.forall_mem_cons.mp hbytes
      obtain ⟨hnext, hrecords⟩ := inLine_step (.inr hplace) hquote hend
      obtain ⟨hlast, hsame⟩ := ih hnext hrest
      exact ⟨hlast, hsame.trans hrecords⟩

/-- Plain bytes and the end of their line are a record. -/
theorem run_plainLine {line : Bytes} (lineEnd : LineEnd) (h : r.Holds .between [] [] [])
    (hne : line ≠ []) (hline : ∀ b ∈ line, b ≠ quote ∧ isLineEnd b = false) :
    ∃ fields, (r.run (line ++ lineEnd.bytes)).Holds .between [] [] [fields] := by
  cases line with
  | nil => exact absurd rfl hne
  | cons b line =>
      obtain ⟨⟨hquote, hend⟩, hrest⟩ := List.forall_mem_cons.mp hline
      obtain ⟨hfirst, hrecords⟩ := inLine_step (.inl h.place_eq) hquote hend
      obtain ⟨hlast, hsame⟩ := inLine_run hfirst hrest
      have hnone : ((r.run (b :: line)).recordsReversed).map Record.fields = [] := by
        rw [run_cons, hsame, hrecords]
        exact h.records_eq
      have hholds : (r.run (b :: line)).Holds (r.run (b :: line)).place
          (r.run (b :: line)).fieldReversed.reverse (r.run (b :: line)).fieldsReversed.reverse [] :=
        ⟨rfl, by simp, by simp, hnone⟩
      have hinside : (r.run (b :: line)).place.IsInside := by
        rcases hlast with hplace | hplace <;> simp [Place.IsInside, hplace]
      obtain ⟨c, spare, hbytes⟩ := lineEnd.exists_bytes
      have hends : ∀ d ∈ c :: spare, isLineEnd d := fun d hd =>
        isLineEnd_of_mem_lineEnd (hbytes ▸ hd)
      obtain ⟨hc, hspare⟩ := List.forall_mem_cons.mp hends
      rw [run_append, hbytes]
      exact ⟨_, (hholds.step_lineEnd hinside hc).run_spare hspare⟩

end Reader

/-- A first line: bytes without quotes and line ends, and the end of the line. A byte order mark
alone is an empty line, and an empty line is no record. -/
def IsFirstLine (bytes : Bytes) : Prop :=
  ∃ (line : Bytes) (lineEnd : LineEnd), bytes = line ++ lineEnd.bytes ∧ line ≠ [] ∧
    line ≠ byteOrderMark ∧ ∀ b ∈ line, b ≠ quote ∧ isLineEnd b = false

/-- The reader when it has read these bytes from the start of a file. -/
def readerAfter (bytes : Bytes) : Reader :=
  { Reader.start 0 (skipMark bytes).1 with startOffset := 0 }.run (skipMark bytes).2

/-- What comes behind these bytes begins a record. -/
def EndsBetween (bytes : Bytes) : Prop := (readerAfter bytes).place = .between

theorem records_eq_finish (bytes : Bytes) : records bytes = (readerAfter bytes).finish := rfl

theorem forgetsBetween_readerAfter (bytes : Bytes) : (readerAfter bytes).ForgetsBetween :=
  Reader.ForgetsBetween.run (fun _ => ⟨rfl, rfl⟩) _

theorem skipMark_append {bytes more : Bytes}
    (h : byteOrderMark <+: bytes ++ more → byteOrderMark <+: bytes) :
    skipMark (bytes ++ more) = ((skipMark bytes).1, (skipMark bytes).2 ++ more) := by
  by_cases hmark : byteOrderMark <+: bytes
  · have hlong : byteOrderMark <+: bytes ++ more := hmark.trans (List.prefix_append bytes more)
    have hdrop : (bytes ++ more).drop byteOrderMark.length =
        bytes.drop byteOrderMark.length ++ more :=
      List.drop_append_of_le_length hmark.length_le
    simp [skipMark, hmark, hlong, hdrop]
  · have hlong : ¬ byteOrderMark <+: bytes ++ more := fun hlong => hmark (h hlong)
    simp [skipMark, hmark, hlong]

theorem IsFirstLine.skipMark_append {h : Bytes} (hline : IsFirstLine h) (more : Bytes) :
    skipMark (h ++ more) = ((skipMark h).1, (skipMark h).2 ++ more) := by
  obtain ⟨line, lineEnd, rfl, -⟩ := hline
  apply Csv.skipMark_append
  intro hmark
  rw [List.append_assoc] at hmark
  have hprefix :=
    mark_of_mark_append line (fun b hb => .inr (lineEnd_head? lineEnd more b hb)) hmark
  exact hprefix.trans (List.prefix_append line lineEnd.bytes)

theorem IsFirstLine.readerAfter_append {h : Bytes} (hline : IsFirstLine h) (more : Bytes) :
    readerAfter (h ++ more) = (readerAfter h).run more := by
  rw [readerAfter, hline.skipMark_append, Reader.run_append]
  rfl

/-- A first line is one record. -/
theorem IsFirstLine.readerAfter {h : Bytes} (hline : IsFirstLine h) :
    EndsBetween h ∧ ∃ first, (readerAfter h).recordsReversed = [first] := by
  obtain ⟨line, lineEnd, rfl, hne, hmark, hplain⟩ := hline
  have hskip : ∃ rest, (skipMark (line ++ lineEnd.bytes)).2 = rest ++ lineEnd.bytes ∧ rest ≠ [] ∧
      ∀ b ∈ rest, b ≠ quote ∧ isLineEnd b = false := by
    by_cases hprefix : byteOrderMark <+: line
    · obtain ⟨rest, rfl⟩ := hprefix
      refine ⟨rest, ?_, ?_, fun b hb => hplain b (List.mem_append_right _ hb)⟩
      · simp [skipMark, List.append_assoc]
      · rintro rfl
        exact hmark (List.append_nil _)
    · refine ⟨line, ?_, hne, hplain⟩
      have hlong : ¬ byteOrderMark <+: line ++ lineEnd.bytes := fun hlong =>
        hprefix (mark_of_mark_append line
          (fun b hb => .inr (isLineEnd_of_mem_lineEnd (List.mem_of_mem_head? hb))) hlong)
      simp [skipMark, hlong]
  obtain ⟨rest, hcontent, hrest, hrestplain⟩ := hskip
  have hstart : ({ Reader.start 0 (skipMark (line ++ lineEnd.bytes)).1 with
      startOffset := 0 } : Reader).Holds .between [] [] [] := ⟨rfl, rfl, rfl, rfl⟩
  obtain ⟨fields, hholds⟩ := Reader.run_plainLine lineEnd hstart hrest hrestplain
  rw [← hcontent] at hholds
  refine ⟨hholds.place_eq, ?_⟩
  have hrecords := hholds.records_eq
  obtain ⟨first, hfirst, -⟩ := List.map_eq_singleton_iff.mp hrecords
  exact ⟨first, hfirst⟩

/-- Behind a first line and whole records, more bytes only add records, and these have the fields
that they have directly behind the first line. -/
theorem records_append {h b₁ : Bytes} (hline : IsFirstLine h) (hb₁ : EndsBetween (h ++ b₁))
    (b₂ : Bytes) :
    ∃ first others new new',
      records (h ++ b₁) = first :: others ∧
      records (h ++ b₂) = first :: new ∧
      records (h ++ b₁ ++ b₂) = first :: (others ++ new') ∧
      new.map Record.fields = new'.map Record.fields := by
  obtain ⟨hplace, first, hfirst⟩ := hline.readerAfter
  have hforgets := forgetsBetween_readerAfter h
  have hlong : readerAfter (h ++ b₁) = (readerAfter h).run b₁ := hline.readerAfter_append b₁
  have hsame : (readerAfter h).SameSince _ _ (readerAfter h) :=
    Reader.sameSince_of_between hforgets hforgets hplace hplace
  obtain ⟨old, -, hold, -⟩ := (hsame.run b₁).records_eq
  rw [← hlong, hfirst] at hold
  have hboth : (readerAfter h).SameSince _ _ (readerAfter (h ++ b₁)) :=
    Reader.sameSince_of_between hforgets (forgetsBetween_readerAfter _) hplace hb₁
  obtain ⟨new, new', hnew, hnew', hfields⟩ := (hboth.run b₂).finish
  refine ⟨first, old.reverse, new, new', ?_, ?_, ?_, hfields⟩
  · rw [records_eq_finish, Reader.finish, show (readerAfter (h ++ b₁)).place = .between from hb₁,
      hold, List.reverse_append]
    rfl
  · rw [records_eq_finish, hline.readerAfter_append, hnew, hfirst]
    rfl
  · rw [records_eq_finish, List.append_assoc, hline.readerAfter_append, Reader.run_append, ← hlong,
      hnew', hold, List.reverse_append, List.append_assoc]
    rfl

end TimingChart.Csv
