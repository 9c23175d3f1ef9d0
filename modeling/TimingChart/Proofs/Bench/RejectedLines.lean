import TimingChart.Proofs.Bench.Loading
import TimingChart.Proofs.Csv.Positions

/-! # The line of a rejected record

A record that is no text is reported by its number, as if each record stood on a line of its own.
Every other record is reported by the line on which the record before it ended, not counting the
line feeds that are skipped behind this end. -/

namespace TimingChart.Table

open Load (Gives FirstDefect fieldText?)

/-- The first record behind the one with the column names that gives no run, and its number. -/
structure FirstRejected (content : Bytes) (number : Nat) (bad : Csv.Record) : Prop where
  getElem_eq : (Csv.records content)[number]? = some bad
  ne_zero : number ≠ 0
  rejected : ¬ ∃ run, Gives bad run
  before : ∀ i r, i ≠ 0 → i < number → (Csv.records content)[i]? = some r → ∃ run, Gives r run

theorem FirstRejected.of_firstDefect {content : Bytes} {before after : List Csv.Record}
    {bad : Csv.Record} {rejection : Rejection}
    (hrecords : (Csv.records content).drop 1 = before ++ bad :: after)
    (hbefore : ∀ r ∈ before, ∃ run, Gives r run)
    (hdefect : FirstDefect (1 + before.length) bad rejection) :
    FirstRejected content (1 + before.length) bad := by
  have hbehind : ∀ i, (Csv.records content)[1 + i]? = (before ++ bad :: after)[i]? := by
    intro i
    rw [← List.getElem?_drop, hrecords]
  constructor
  case getElem_eq =>
    rw [hbehind, List.getElem?_append_right (Nat.le_refl _), Nat.sub_self, List.getElem?_cons_zero]
  case ne_zero => omega
  case rejected =>
    rintro ⟨run, hrun⟩
    have hok : Load.readRecord (1 + before.length) bad = .ok run :=
      Load.readRecord_eq_ok_iff.mpr hrun
    rw [Load.readRecord_eq_error_iff.mpr hdefect] at hok
    cases hok
  case before =>
    intro i r hi hlt hr
    obtain ⟨j, rfl⟩ : ∃ j, i = 1 + j := ⟨i - 1, by omega⟩
    rw [hbehind, List.getElem?_append_left (by omega)] at hr
    exact hbefore r (List.mem_of_getElem? hr)

theorem isSome_of_mapM {fields : List Bytes} {texts : List (List Char)}
    (h : fields.mapM fieldText? = some texts) : ∀ field ∈ fields, (fieldText? field).isSome := by
  induction fields generalizing texts with
  | nil => simp
  | cons field fields ih =>
      rw [List.mapM_cons] at h
      cases hfield : fieldText? field with
      | none => simp [hfield] at h
      | some text =>
          cases hfields : fields.mapM fieldText? with
          | none => simp [hfield, hfields] at h
          | some others => exact List.forall_mem_cons.mpr ⟨by rw [hfield]; rfl, ih hfields⟩

/-- There are two sources of lines: the number of the record and the line feeds noted with it. -/
theorem line_of_firstDefect {number : Nat} {bad : Csv.Record} {rejection : Rejection}
    (h : FirstDefect number bad rejection) :
    (∃ field ∈ bad.fields, fieldText? field = none) ∧ rejection.line = number + 1 ∨
      (∀ field ∈ bad.fields, (fieldText? field).isSome) ∧
        rejection.line = bad.lineFeeds + 1 := by
  cases h with
  | notText before field after hfields hbefore hfield =>
      refine .inl ⟨⟨field, ?_, hfield⟩, rfl⟩
      rw [hfields]
      exact List.mem_append_right _ List.mem_cons_self
  | fieldCount texts htexts hcount => exact .inr ⟨isSome_of_mapM htexts, rfl⟩
  | column texts column header text fault htexts => exact .inr ⟨isSome_of_mapM htexts, rfl⟩

/-- A rejected record that is no text is reported by its number, counted from one. Any other one is
reported by the line it starts on, less the spare line feeds in front of it. Where carriage returns
and line feeds come in pairs, neither is beyond the line that the record starts on. -/
theorem loadFile_line (fs : FileSystem) (p : Path) (content : Bytes) (line : Nat) (reason : String)
    (hget : fs.get p = .ok (.file content))
    (herror : loadFile fs p = .error (.dataFormat line reason)) :
    ∃ number bad start body ending spare,
      FirstRejected content number bad ∧
      (∀ offset, Csv.StartsAt content number offset ↔ offset = start) ∧
      Csv.EndsRecord (content.take start) body ending spare ∧
      ((∃ field ∈ bad.fields, fieldText? field = none) → line = number + 1) ∧
      ((∀ field ∈ bad.fields, (fieldText? field).isSome) →
        line + spare.count Csv.lineFeed = Csv.lineAt content start) ∧
      (Csv.ReturnsArePaired content → line ≤ Csv.lineAt content start) := by
  obtain ⟨before, bad, after, rejection, hrecords, hbefore, hdefect, hfault⟩ :=
    (loadFile_error_iff_of_get hget).mp herror
  have hfirst := FirstRejected.of_firstDefect hrecords hbefore hdefect
  obtain ⟨start, hstart, hnoted⟩ := Csv.exists_startsAt hfirst.getElem_eq
  obtain ⟨body, ending, spare, hends, hcount⟩ := hstart.exists_endsRecord hfirst.ne_zero
  have hline : line = rejection.line := by
    injection hfault
  -- the reader has noted all line feeds before the record but the spare ones
  have hnotedLine : bad.lineFeeds + spare.count Csv.lineFeed + 1 = Csv.lineAt content start := by
    rw [Csv.lineAt, hends.bytes_eq, List.append_cons, List.count_append, ← hnoted, hcount]
  have hnumber : Csv.ReturnsArePaired content → 1 + before.length + 1 ≤ Csv.lineAt content start :=
    fun hpaired => Nat.succ_le_succ (hstart.number_le hpaired)
  have hstarts : ∀ offset, Csv.StartsAt content (1 + before.length) offset ↔ offset = start :=
    fun offset => ⟨fun h => h.unique hfirst.ne_zero hstart, fun h => h ▸ hstart⟩
  refine ⟨_, bad, start, body, ending, spare, hfirst, hstarts, hends, ?_⟩
  rw [hline]
  rcases line_of_firstDefect hdefect with ⟨⟨field, hmem, hfield⟩, hnone⟩ | ⟨htexts, hsome⟩
  · rw [hnone]
    refine ⟨fun _ => rfl, fun htexts => ?_, hnumber⟩
    have hsome := htexts field hmem
    rw [hfield] at hsome
    cases hsome
  · rw [hsome]
    refine ⟨?_, fun _ => by omega, fun _ => by omega⟩
    rintro ⟨field, hmem, hfield⟩
    have hsome := htexts field hmem
    rw [hfield] at hsome
    cases hsome

/-- A first line and a record that is too short, both with paired line ends. -/
def pairedFile : Bytes := Utf8.encode "h\r\n1,2\r\n".toList

/-- The record starts on the second line and is reported on the first one. -/
theorem loadFile_line_pairedFile :
    FileSystem.get ⟨[([[0x66]], .file pairedFile)], [], []⟩ ⟨[0x66]⟩ = .ok (.file pairedFile) ∧
    loadFile ⟨[([[0x66]], .file pairedFile)], [], []⟩ ⟨[0x66]⟩ =
      .error (.dataFormat 1 "expected 8 fields, found 2") ∧
    Csv.ReturnsArePaired pairedFile ∧
    ∃ bad start body ending spare, FirstRejected pairedFile 1 bad ∧
      (∀ offset, Csv.StartsAt pairedFile 1 offset ↔ offset = start) ∧
      Csv.EndsRecord (pairedFile.take start) body ending spare ∧
      1 + spare.count Csv.lineFeed = Csv.lineAt pairedFile start ∧
      Csv.lineAt pairedFile start = 2 := by
  have hget : FileSystem.get ⟨[([[0x66]], .file pairedFile)], [], []⟩ ⟨[0x66]⟩ =
      .ok (.file pairedFile) := rfl
  have herror : loadFile ⟨[([[0x66]], .file pairedFile)], [], []⟩ ⟨[0x66]⟩ =
      .error (.dataFormat 1 "expected 8 fields, found 2") := by
    rfl
  have hpaired : Csv.ReturnsArePaired pairedFile := by
    intro before b after heq
    have hall : ∀ i < 8, pairedFile[i]? = some Csv.carriageReturn →
        pairedFile[i + 1]? = some Csv.lineFeed := by decide
    have hlength : pairedFile.length = 8 := by decide
    rw [heq] at hall hlength
    rw [List.length_append, List.length_cons] at hlength
    have hnext := hall before.length (by omega) (by simp)
    simpa using hnext
  obtain ⟨number, bad, start, body, ending, spare, hfirst, hunique, hends, -, hline, -⟩ :=
    loadFile_line _ _ _ _ _ hget herror
  obtain rfl : number = 1 := by
    have hlt := (List.getElem?_eq_some_iff.mp hfirst.getElem_eq).1
    have hlength : (Csv.records pairedFile).length = 2 := by decide
    have hne := hfirst.ne_zero
    omega
  have hbad : (Csv.records pairedFile)[1]? = some ⟨[[0x31], [0x32]], 0, 2⟩ := by decide
  obtain rfl := Option.some.inj (hfirst.getElem_eq.symm.trans hbad)
  have hstarts : ∀ i < 8, (Csv.readerAfter (pairedFile.take i)).place = .between →
      (Csv.readerAfter (pairedFile.take i)).recordsReversed.length = 1 →
      pairedFile[i]?.all Csv.isLineEnd ∨ i = 3 := by decide
  have hstart := (hunique start).mpr rfl
  obtain ⟨b, hb, hbegins⟩ := hstart.begins
  have hlt : start < 8 := (List.getElem?_eq_some_iff.mp hb).1
  rcases hstarts start hlt hstart.between hstart.number_eq with hall | rfl
  · rw [hb, Option.all_some, hbegins] at hall
    cases hall
  · exact ⟨hget, herror, hpaired, _, 3, body, ending, spare, hfirst, hunique, hends,
      hline (by decide), by decide⟩

end TimingChart.Table
