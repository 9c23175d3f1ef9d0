import Mathlib.Data.List.Induction
import TimingChart.Proofs.Csv.Boundaries

/-! # Where records start

The reader notes how many line feeds it has read when it begins to look for a record. That is right
behind the line end of the record before, so the line ends it then skips are not among them. -/

namespace TimingChart.Csv

/-- The last byte is there, and no line end. -/
def EndsInLine (bytes : Bytes) : Prop := ∃ b, bytes.getLast? = some b ∧ isLineEnd b = false

theorem endsInLine_concat {b : UInt8} (hb : isLineEnd b = false) (bytes : Bytes) :
    EndsInLine (bytes ++ [b]) :=
  ⟨b, List.getLast?_concat, hb⟩

/-- A record and what has been read before it, the line end behind it, and spare line ends. -/
structure EndsRecord (bytes body : Bytes) (ending : UInt8) (spare : Bytes) : Prop where
  bytes_eq : bytes = body ++ ending :: spare
  endsInLine : EndsInLine body
  isLineEnd_ending : isLineEnd ending
  isLineEnd_spare : ∀ b ∈ spare, isLineEnd b

namespace Reader

variable {r : Reader} {seen : Bytes} {b : UInt8}

/-! ## What one byte does -/

/-- What a reader is after one more byte, but for the fields it collects. -/
inductive Reads (r : Reader) (b : UInt8) (after : Reader) : Prop where
  /-- A line end between records is skipped. -/
  | skipped (hplace : r.place = .between) (hb : isLineEnd b) (hafter : after = r.advance b)
  /-- The byte begins a record or is in one. A line end is so in quotes only. -/
  | inRecord (hafter : after.place ≠ .between)
      (hcount : after.lineFeeds = (r.advance b).lineFeeds)
      (hstart : after.startLineFeeds = r.startLineFeeds)
      (hrecords : after.recordsReversed = r.recordsReversed)
      (hbegins : r.place = .between → isLineEnd b = false)
      (hinside : after.place.IsInside → isLineEnd b = false)
  /-- A line end outside of quotes ends the record. -/
  | ended (hplace : r.place.IsInside) (hb : isLineEnd b) (hafter : after = (r.advance b).endRecord)

theorem reads_stepBare (h : isLineEnd b → r.place.IsInside) :
    r.Reads b ((r.advance b).stepBare b) := by
  unfold stepBare
  split
  next hcomma =>
    subst hcomma
    exact .inRecord (by simp [endField]) rfl rfl rfl (fun _ => rfl) fun _ => rfl
  next =>
    split
    next hb => exact .ended (h hb) hb rfl
    next hb =>
      rw [Bool.not_eq_true] at hb
      exact .inRecord (by simp [collect]) rfl rfl rfl (fun _ => hb) fun _ => hb

theorem reads_stepStart (h : isLineEnd b → r.place.IsInside) :
    r.Reads b ((r.advance b).stepStart b) := by
  unfold stepStart
  split
  next hquote =>
    subst hquote
    exact .inRecord (by simp) rfl rfl rfl (fun _ => rfl) fun _ => rfl
  next => exact reads_stepBare h

theorem reads_step (r : Reader) (b : UInt8) : r.Reads b (r.step b) := by
  have hkept : (r.advance b).place = r.place := rfl
  simp only [step, hkept]
  cases hplace : r.place with
  | between =>
      simp only
      split
      next hb => exact .skipped hplace hb rfl
      next hb => exact reads_stepStart fun hend => absurd hend hb
  | fieldStart => exact reads_stepStart fun _ => by simp [hplace, Place.IsInside]
  | bare => exact reads_stepBare fun _ => by simp [hplace, Place.IsInside]
  | quoted =>
      have hne : r.place = .between → isLineEnd b = false := by simp [hplace]
      simp only
      split
      next hquote =>
        subst hquote
        exact .inRecord (by simp) rfl rfl rfl hne fun _ => rfl
      next => exact .inRecord (by simp [collect]) rfl rfl rfl hne fun h => absurd rfl h.1
  | quoteSeen =>
      have hne : r.place = .between → isLineEnd b = false := by simp [hplace]
      simp only
      split
      next => exact .inRecord (by simp [collect]) rfl rfl rfl hne fun h => absurd rfl h.1
      next => exact reads_stepBare fun _ => by simp [hplace, Place.IsInside]

/-! ## One record after the other -/

theorem lineFeeds_finish_of_ne (h : r.place ≠ .between) :
    r.finish.map Record.lineFeeds =
      r.recordsReversed.reverse.map Record.lineFeeds ++ [r.startLineFeeds] := by
  rw [finish_of_ne h, List.reverse_cons, List.map_append]
  rfl

/-- A byte begins a record if it comes between two records and is no line end. -/
theorem lineFeeds_step (r : Reader) (b : UInt8) :
    (r.step b).finish.map Record.lineFeeds =
      r.finish.map Record.lineFeeds ++
        if r.place = .between ∧ isLineEnd b = false then [r.startLineFeeds] else [] := by
  cases r.reads_step b with
  | skipped hplace hb hafter => simp [hafter, finish, advance, hplace, hb]
  | inRecord hafter hcount hstart hrecords hbegins hinside =>
      rw [lineFeeds_finish_of_ne hafter, hstart, hrecords]
      by_cases hplace : r.place = .between
      · simp [finish, hplace, hbegins hplace]
      · simp [lineFeeds_finish_of_ne hplace, hplace]
  | ended hplace hb hafter =>
      rw [lineFeeds_finish_of_ne hplace.2, if_neg fun h => hplace.2 h.1, hafter]
      simp [finish, endRecord, record, advance]

/-- Where the record with this number starts in what is read: the reader is between records, so many
of them are behind it, and what comes next is no line end. -/
structure FindsStart (r : Reader) (bytes : Bytes) (number start : Nat) : Prop where
  between : (r.run (bytes.take start)).place = .between
  number_eq : (r.run (bytes.take start)).recordsReversed.length = number
  begins : ∃ b, bytes[start]? = some b ∧ isLineEnd b = false

/-- Every record has a start, and notes the line feeds that the reader had noted there. -/
theorem exists_findsStart (hplace : r.place = .between) (hnone : r.recordsReversed = [])
    (bytes : Bytes) {number lineFeeds : Nat}
    (h : ((r.run bytes).finish.map Record.lineFeeds)[number]? = some lineFeeds) :
    ∃ start, r.FindsStart bytes number start ∧
      (r.run (bytes.take start)).startLineFeeds = lineFeeds := by
  induction bytes using List.reverseRecOn with
  | nil => simp [finish, hplace, hnone] at h
  | append_singleton bytes b ih =>
      rw [run_append, run_cons, run_nil, lineFeeds_step] at h
      by_cases hold : number < ((r.run bytes).finish.map Record.lineFeeds).length
      · rw [List.getElem?_append_left hold] at h
        obtain ⟨start, ⟨hbetween, hnumber, c, hc, hbegins⟩, hline⟩ := ih h
        have hlt := (List.getElem?_eq_some_iff.mp hc).1
        have htake : (bytes ++ [b]).take start = bytes.take start :=
          List.take_append_of_le_length (Nat.le_of_lt hlt)
        refine ⟨start, ⟨htake ▸ hbetween, htake ▸ hnumber, c, ?_, hbegins⟩, htake ▸ hline⟩
        rw [List.getElem?_append_left hlt, hc]
      · rw [List.getElem?_append_right (Nat.le_of_not_lt hold)] at h
        split at h
        next hnew =>
          obtain ⟨hbetween, hbegins⟩ := hnew
          obtain ⟨hindex, hline⟩ := List.getElem?_eq_some_iff.mp h
          have hfinish : (r.run bytes).finish = (r.run bytes).recordsReversed.reverse := by
            rw [finish, hbetween]
          have htake : (bytes ++ [b]).take bytes.length = bytes := List.take_left
          rw [hfinish] at hold hindex
          simp only [List.length_map, List.length_reverse, List.length_singleton] at hold hindex
          refine ⟨bytes.length, ⟨?_, ?_, b, List.getElem?_concat_length, hbegins⟩, ?_⟩
          · rw [htake, hbetween]
          · rw [htake]
            omega
          · rw [htake, ← hline]
            simp
        next => cases h

/-! ## What is before a record -/

/-- What a reader that has read these bytes has counted, and what they end with. -/
structure Tracks (r : Reader) (seen : Bytes) : Prop where
  lineFeeds_eq : r.lineFeeds = seen.count lineFeed
  inside : r.place.IsInside → EndsInLine seen
  between : r.place = .between → r.recordsReversed ≠ [] →
    ∃ body ending spare, EndsRecord seen body ending spare ∧
      r.startLineFeeds = (body ++ [ending]).count lineFeed

theorem Tracks.step (h : r.Tracks seen) (b : UInt8) : (r.step b).Tracks (seen ++ [b]) := by
  have hadvance : (r.advance b).lineFeeds = (seen ++ [b]).count lineFeed := by
    rw [List.count_append, List.count_singleton, ← h.lineFeeds_eq, advance]
    by_cases hb : b = lineFeed <;> simp [hb]
  cases r.reads_step b with
  | skipped hplace hb hafter =>
      rw [hafter]
      refine ⟨hadvance, fun h => absurd hplace h.2, fun _ hrecords => ?_⟩
      obtain ⟨body, ending, spare, hends, hstart⟩ := h.between hplace hrecords
      refine ⟨body, ending, spare ++ [b],
        ⟨?_, hends.endsInLine, hends.isLineEnd_ending, ?_⟩, hstart⟩
      · rw [hends.bytes_eq, List.append_assoc, List.cons_append]
      · intro c hc
        rcases List.mem_append.mp hc with hc | hc
        · exact hends.isLineEnd_spare c hc
        · exact List.mem_singleton.mp hc ▸ hb
  | inRecord hafter hcount hstart hrecords hbegins hinside =>
      exact ⟨hcount.trans hadvance, fun h => endsInLine_concat (hinside h) seen,
        fun h => absurd h hafter⟩
  | ended hplace hb hafter =>
      rw [hafter]
      refine ⟨hadvance, fun h => absurd rfl h.2, fun _ _ => ⟨seen, b, [], ?_, hadvance⟩⟩
      exact ⟨rfl, h.inside hplace, hb, by simp⟩

theorem Tracks.run (h : r.Tracks seen) (bytes : Bytes) : (r.run bytes).Tracks (seen ++ bytes) := by
  induction bytes generalizing r seen with
  | nil =>
      rw [List.append_nil]
      exact h
  | cons b bytes ih =>
      rw [List.append_cons]
      exact ih (h.step b)

end Reader

/-! ## Line feeds and records -/

/-- Nothing but line feeds comes right behind carriage returns. -/
def ReturnsArePaired (bytes : Bytes) : Prop :=
  ∀ before b after, bytes = before ++ carriageReturn :: b :: after → b = lineFeed

namespace Reader

variable {r : Reader} {seen : Bytes} {b : UInt8}

/-- Only a line end in a record and outside of quotes makes one more record. -/
theorem length_step (r : Reader) (b : UInt8) :
    (r.step b).recordsReversed.length = r.recordsReversed.length ∨
      isLineEnd b ∧ r.place.IsInside ∧
        (r.step b).recordsReversed.length = r.recordsReversed.length + 1 := by
  cases r.reads_step b with
  | skipped _ _ hafter =>
      left
      rw [hafter]
      rfl
  | inRecord _ _ _ hrecords => exact .inl (by rw [hrecords])
  | ended hplace hb hafter =>
      refine .inr ⟨hb, hplace, ?_⟩
      rw [hafter]
      rfl

/-- The record with this number has begun, or is behind the reader. -/
def HasBegun (r : Reader) (number : Nat) : Prop :=
  number < r.recordsReversed.length ∨
    number = r.recordsReversed.length ∧ r.place ≠ .between

theorem hasBegun_step (r : Reader) (hb : isLineEnd b = false) :
    (r.step b).HasBegun r.recordsReversed.length := by
  have hnot : ¬ isLineEnd b := by simp [hb]
  cases r.reads_step b with
  | skipped _ hend => exact absurd hend hnot
  | inRecord hafter _ _ hrecords => exact .inr ⟨by rw [hrecords], hafter⟩
  | ended _ hend => exact absurd hend hnot

theorem HasBegun.step {number : Nat} (h : r.HasBegun number) (b : UInt8) :
    (r.step b).HasBegun number := by
  cases r.reads_step b with
  | skipped hplace _ hafter =>
      rw [hafter]
      exact h
  | inRecord hafter _ _ hrecords =>
      rw [HasBegun, hrecords]
      exact h.imp_right fun h => ⟨h.1, hafter⟩
  | ended _ _ hafter =>
      left
      rw [hafter, endRecord, List.length_cons]
      rcases h with hlt | ⟨rfl, -⟩
      · exact Nat.lt_succ_of_lt hlt
      · exact Nat.lt_succ_self _

theorem HasBegun.run {number : Nat} (h : r.HasBegun number) (bytes : Bytes) :
    (r.run bytes).HasBegun number := by
  induction bytes generalizing r with
  | nil => exact h
  | cons b bytes ih => exact ih (h.step b)

/-- Behind a line end, the reader is in no record, or in quotes. -/
theorem not_isInside_step (r : Reader) (hb : isLineEnd b) : ¬ (r.step b).place.IsInside := by
  intro hinside
  cases r.reads_step b with
  | skipped hplace _ hafter =>
      rw [hafter] at hinside
      exact hinside.2 hplace
  | inRecord _ _ _ _ _ hline =>
      rw [hline hinside] at hb
      cases hb
  | ended _ _ hafter =>
      rw [hafter] at hinside
      exact hinside.2 rfl

/-- A reader that has read these bytes has not found more records than line feeds, but for a record
that a carriage return has just ended. -/
structure KeepsUp (r : Reader) (seen : Bytes) : Prop where
  length_le : r.recordsReversed.length ≤
    seen.count lineFeed + if seen.getLast? = some carriageReturn then 1 else 0
  behind_return : seen.getLast? = some carriageReturn → ¬ r.place.IsInside

theorem KeepsUp.step (h : r.KeepsUp seen)
    (hb : seen.getLast? = some carriageReturn → b = lineFeed) :
    (r.step b).KeepsUp (seen ++ [b]) := by
  constructor
  case length_le =>
    rw [List.getLast?_concat, List.count_append, List.count_singleton]
    have hle := h.length_le
    rcases r.length_step b with hsame | ⟨hend, hplace, hmore⟩
    · rw [hsame]
      split at hle
      next hlast =>
        obtain rfl := hb hlast
        simp
        omega
      next => omega
    · -- the record ends here, so its line end does not come right behind a carriage return
      rw [if_neg fun hlast => h.behind_return hlast hplace] at hle
      rw [isLineEnd, Bool.or_eq_true, decide_eq_true_eq, decide_eq_true_eq] at hend
      rcases hend with rfl | rfl
      · simp
        omega
      · simp
        omega
  case behind_return =>
    intro hlast
    rw [List.getLast?_concat, Option.some.injEq] at hlast
    subst hlast
    exact r.not_isInside_step (by decide)

theorem KeepsUp.run {bytes : Bytes} (h : r.KeepsUp seen)
    (hpaired : ReturnsArePaired (seen ++ bytes)) : (r.run bytes).KeepsUp (seen ++ bytes) := by
  induction bytes generalizing r seen with
  | nil =>
      rw [List.append_nil]
      exact h
  | cons b bytes ih =>
      have hb : seen.getLast? = some carriageReturn → b = lineFeed := by
        intro hlast
        obtain ⟨before, rfl⟩ := List.getLast?_eq_some_iff.mp hlast
        exact hpaired before b bytes (by simp)
      rw [List.append_cons] at hpaired ⊢
      exact ih (h.step hb) hpaired

end Reader

/-! ## Positions in a file -/

/-- Where the record with this number starts in a file: the reader is between records there, so many
of them are behind it, and what comes next is no line end. -/
structure StartsAt (content : Bytes) (number start : Nat) : Prop where
  between : (readerAfter (content.take start)).place = .between
  number_eq : (readerAfter (content.take start)).recordsReversed.length = number
  begins : ∃ b, content[start]? = some b ∧ isLineEnd b = false

/-- The line of a byte in a file, counted from one. -/
def lineAt (content : Bytes) (offset : Nat) : Nat := (content.take offset).count lineFeed + 1

theorem skipMark_mark_append (rest : Bytes) :
    skipMark (byteOrderMark ++ rest) = (byteOrderMark.length, rest) := by
  simp [skipMark]

theorem skipMark_of_unmarked {bytes : Bytes} (h : ¬ byteOrderMark <+: bytes) :
    skipMark bytes = (0, bytes) := by
  simp [skipMark, h]

/-- Behind its mark, if it has one, a file can be cut off anywhere. -/
theorem skipMark_take (content : Bytes) (length : Nat) :
    skipMark (content.take ((skipMark content).1 + length)) =
      ((skipMark content).1, (skipMark content).2.take length) := by
  by_cases hmark : byteOrderMark <+: content
  · obtain ⟨rest, rfl⟩ := hmark
    rw [skipMark_mark_append, List.take_length_add_append, skipMark_mark_append]
  · have hshort : ¬ byteOrderMark <+: content.take length := fun h =>
      hmark (h.trans (List.take_prefix length content))
    rw [skipMark_of_unmarked hmark, Nat.zero_add, skipMark_of_unmarked hshort]

theorem getElem?_skipMark (content : Bytes) (i : Nat) :
    content[(skipMark content).1 + i]? = (skipMark content).2[i]? := by
  by_cases hmark : byteOrderMark <+: content
  · obtain ⟨rest, rfl⟩ := hmark
    rw [skipMark_mark_append, List.getElem?_append_right (Nat.le_add_right _ _),
      Nat.add_sub_cancel_left]
  · rw [skipMark_of_unmarked hmark, Nat.zero_add]

/-- A mark has no line feed in it. -/
theorem exists_mark (bytes : Bytes) :
    ∃ mark, bytes = mark ++ (skipMark bytes).2 ∧ mark.count lineFeed = 0 := by
  by_cases hmark : byteOrderMark <+: bytes
  · obtain ⟨rest, rfl⟩ := hmark
    rw [skipMark_mark_append]
    exact ⟨byteOrderMark, rfl, by decide⟩
  · rw [skipMark_of_unmarked hmark]
    exact ⟨[], rfl, rfl⟩

/-- The reader at the start of a file, behind so many bytes of a mark. -/
def firstReader (skipped : Nat) : Reader := { Reader.start 0 skipped with startOffset := 0 }

theorem readerAfter_eq (bytes : Bytes) :
    readerAfter bytes = (firstReader (skipMark bytes).1).run (skipMark bytes).2 := rfl

/-- Every record of a file starts somewhere, and the line feeds noted with it are those that the
reader has noted there. -/
theorem exists_startsAt {content : Bytes} {number : Nat} {record : Record}
    (h : (records content)[number]? = some record) :
    ∃ start, StartsAt content number start ∧
      (readerAfter (content.take start)).startLineFeeds = record.lineFeeds := by
  have hnoted : ((readerAfter content).finish.map Record.lineFeeds)[number]? =
      some record.lineFeeds := by
    rw [List.getElem?_map, ← records_eq_finish, h, Option.map_some]
  rw [readerAfter_eq] at hnoted
  obtain ⟨length, ⟨hbetween, hnumber, hbegins⟩, hline⟩ := Reader.exists_findsStart rfl rfl _ hnoted
  have hreader : readerAfter (content.take ((skipMark content).1 + length)) =
      (firstReader (skipMark content).1).run ((skipMark content).2.take length) := by
    rw [readerAfter_eq, skipMark_take]
  refine ⟨(skipMark content).1 + length, ⟨?_, ?_, ?_⟩, ?_⟩
  · rw [hreader, hbetween]
  · rw [hreader, hnumber]
  · rw [getElem?_skipMark]
    exact hbegins
  · rw [hreader, hline]

theorem tracks_readerAfter (bytes : Bytes) : (readerAfter bytes).Tracks (skipMark bytes).2 := by
  have hstart : (firstReader (skipMark bytes).1).Tracks [] :=
    ⟨rfl, fun h => absurd rfl h.2, fun _ hrecords => absurd rfl hrecords⟩
  exact hstart.run (skipMark bytes).2

theorem keepsUp_readerAfter {bytes : Bytes} (h : ReturnsArePaired bytes) :
    (readerAfter bytes).KeepsUp (skipMark bytes).2 := by
  obtain ⟨mark, hmark, -⟩ := exists_mark bytes
  have hread : ReturnsArePaired (skipMark bytes).2 := by
    intro before b after heq
    refine h (mark ++ before) b after (hmark.trans ?_)
    rw [heq, List.append_assoc]
  have hstart : (firstReader (skipMark bytes).1).KeepsUp [] :=
    ⟨Nat.zero_le _, fun h => by cases h⟩
  exact hstart.run hread

theorem ReturnsArePaired.take {bytes : Bytes} (h : ReturnsArePaired bytes) (length : Nat) :
    ReturnsArePaired (bytes.take length) := by
  intro before b after heq
  refine h before b (after ++ bytes.drop length) ?_
  conv_lhs => rw [← List.take_append_drop length bytes, heq]
  rw [List.append_assoc, List.cons_append, List.cons_append]

namespace StartsAt

variable {content : Bytes} {number start : Nat} (h : StartsAt content number start)
include h

/-- What is before a record, and how many line feeds the reader has noted for it. -/
theorem exists_endsRecord (hnumber : number ≠ 0) :
    ∃ body ending spare, EndsRecord (content.take start) body ending spare ∧
      (readerAfter (content.take start)).startLineFeeds = (body ++ [ending]).count lineFeed := by
  have hrecords : (readerAfter (content.take start)).recordsReversed ≠ [] := by
    intro hnone
    have hlength := h.number_eq
    rw [hnone] at hlength
    exact hnumber hlength.symm
  obtain ⟨body, ending, spare, ⟨hbytes, ⟨b, hlast, hb⟩, hending, hspare⟩, hcount⟩ :=
    (tracks_readerAfter (content.take start)).between h.between hrecords
  obtain ⟨mark, hmark, hnone⟩ := exists_mark (content.take start)
  refine ⟨mark ++ body, ending, spare, ⟨?_, ⟨b, ?_, hb⟩, hending, hspare⟩, ?_⟩
  · rw [List.append_assoc, ← hbytes]
    exact hmark
  · rw [List.getLast?_append, hlast, Option.some_or]
  · rw [hcount, List.append_assoc, List.count_append, List.count_append, hnone, Nat.zero_add,
      List.count_append]

theorem not_lt {start' : Nat} (hnumber : number ≠ 0) (h' : StartsAt content number start') :
    ¬ start < start' := by
  intro hlt
  obtain ⟨b, hb, hbegins⟩ := h.begins
  obtain ⟨body, ending, spare, hends, -⟩ := h.exists_endsRecord hnumber
  obtain ⟨hindex, rfl⟩ := List.getElem?_eq_some_iff.mp hb
  obtain ⟨k, rfl⟩ : ∃ k, start' = start + (k + 1) := ⟨start' - start - 1, by omega⟩
  obtain ⟨more, hmore⟩ : ∃ more,
      content.take (start + (k + 1)) = content.take start ++ content[start] :: more := by
    refine ⟨(content.drop (start + 1)).take k, ?_⟩
    rw [List.take_add, List.drop_eq_getElem_cons hindex, List.take_succ_cons]
  have hmark : byteOrderMark <+: content.take start ++ content[start] :: more →
      byteOrderMark <+: content.take start := by
    rw [hends.bytes_eq, List.append_assoc]
    intro hlong
    refine (mark_of_mark_append body ?_ hlong).trans (List.prefix_append _ _)
    intro b hb
    obtain rfl := Option.some.inj hb
    exact .inr hends.isLineEnd_ending
  have hreader : readerAfter (content.take (start + (k + 1))) =
      ((readerAfter (content.take start)).step content[start]).run more := by
    rw [hmore, readerAfter, skipMark_append hmark, Reader.run_append]
    rfl
  have hbegun := ((readerAfter (content.take start)).hasBegun_step hbegins).run more
  rw [← hreader, h.number_eq, Reader.HasBegun, h'.number_eq] at hbegun
  rcases hbegun with hbegun | ⟨-, hbegun⟩
  · exact Nat.lt_irrefl _ hbegun
  · exact hbegun h'.between

/-- Behind the first one, every record starts at one place only. -/
theorem unique {start' : Nat} (hnumber : number ≠ 0) (h' : StartsAt content number start') :
    start = start' := by
  have hle := h.not_lt hnumber h'
  have hge := h'.not_lt hnumber h
  omega

/-- Where carriage returns and line feeds come in pairs, there are no more records than line feeds
before a record. -/
theorem number_le (hpaired : ReturnsArePaired content) :
    number ≤ (content.take start).count lineFeed := by
  obtain ⟨c, hc, hbegins⟩ := h.begins
  have hkeeps := (keepsUp_readerAfter (hpaired.take start)).length_le
  obtain ⟨mark, hmark, hnone⟩ := exists_mark (content.take start)
  have hcount : (content.take start).count lineFeed =
      (skipMark (content.take start)).2.count lineFeed := by
    conv_lhs => rw [hmark]
    rw [List.count_append, hnone, Nat.zero_add]
  -- the record does not start right behind a carriage return
  have hlast : (skipMark (content.take start)).2.getLast? ≠ some carriageReturn := by
    intro hlast
    obtain ⟨before, hbefore⟩ := List.getLast?_eq_some_iff.mp hlast
    have hlineFeed : c = lineFeed := by
      obtain ⟨hlt, rfl⟩ := List.getElem?_eq_some_iff.mp hc
      refine hpaired (mark ++ before) _ (content.drop (start + 1)) ?_
      rw [← List.drop_eq_getElem_cons hlt]
      conv_lhs => rw [← List.take_append_drop start content, hmark, hbefore]
      rw [List.append_assoc, List.append_assoc, List.append_assoc, List.singleton_append]
    subst hlineFeed
    exact absurd hbegins (by decide)
  rw [h.number_eq, if_neg hlast, Nat.add_zero] at hkeeps
  rw [hcount]
  exact hkeeps

end StartsAt

end TimingChart.Csv
