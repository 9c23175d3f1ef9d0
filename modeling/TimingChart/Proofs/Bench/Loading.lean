import Mathlib.Data.List.Forall2
import Mathlib.Tactic.IntervalCases
import TimingChart.Bench.LoadFile
import TimingChart.Proofs.Bench.Columns
import TimingChart.Proofs.Bench.Reasons
import TimingChart.Proofs.Fallible
import TimingChart.Proofs.Text.Trimming

/-! # What loading accepts and what it reports

Each record behind the first one either gives a run or fails a first check: its fields must be text,
there must be eight of them, and from left to right each must belong into its column. -/

namespace TimingChart

namespace Load

/-! ## Checks -/

/-- Why a text does not belong into the column with this number, if it does not: the first four
columns hold integers, the others doubles. -/
def columnFault? (column : Nat) (text : List Char) : Option FieldFault :=
  if column < 4 then
    match readCount text with
    | .ok _ => none
    | .error fault => some (.integer fault)
  else
    match Binary64.read text with
    | .ok _ => none
    | .error fault => some (.float fault)

/-- All texts to the left of this column belong into theirs. -/
def FitUpTo (texts : List (List Char)) (column : Nat) : Prop :=
  ∀ i < column, ∀ text, texts[i]? = some text → columnFault? i text = none

/-- The leftmost text that does not belong into its column. -/
structure FirstColumnFault (texts : List (List Char)) (column : Nat) (text : List Char)
    (fault : FieldFault) : Prop where
  text_eq : texts[column]? = some text
  fault_eq : columnFault? column text = some fault
  left : FitUpTo texts column

/-- Eight texts that read as the values of a run, in the order of the columns. -/
inductive Spells : List (List Char) → Record → Prop where
  | intro {rows1 cols1 cols2 threads timeScalar timeSimd timeMkl improvement : List Char}
      {run : Record} (hrows1 : readCount rows1 = .ok run.rows1)
      (hcols1 : readCount cols1 = .ok run.cols1) (hcols2 : readCount cols2 = .ok run.cols2)
      (hthreads : readCount threads = .ok run.threads)
      (htimeScalar : Binary64.read timeScalar = .ok run.timeScalar)
      (htimeSimd : Binary64.read timeSimd = .ok run.timeSimd)
      (htimeMkl : Binary64.read timeMkl = .ok run.timeMkl)
      (himprovement : Binary64.read improvement = .ok run.improvement) :
      Spells [rows1, cols1, cols2, threads, timeScalar, timeSimd, timeMkl, improvement] run

/-- A record gives a run if its fields are texts that read as the run. -/
def Gives (r : Csv.Record) (run : Record) : Prop :=
  ∃ texts, r.fields.mapM fieldText? = some texts ∧ Spells texts run

/-- The first check that the record with this number fails, and how it is reported. -/
inductive FirstDefect (number : Nat) (r : Csv.Record) : Rejection → Prop where
  | notText (before : List Bytes) (field : Bytes) (after : List Bytes)
      (hfields : r.fields = before ++ field :: after)
      (hbefore : ∀ f ∈ before, (fieldText? f).isSome) (hfield : fieldText? field = none) :
      FirstDefect number r ⟨number + 1, .notText number r.lineFeeds r.offset before.length
        (Utf8.validLength (trimBytes field))⟩
  | fieldCount (texts : List (List Char)) (htexts : r.fields.mapM fieldText? = some texts)
      (hcount : texts.length ≠ 8) :
      FirstDefect number r ⟨r.lineFeeds + 1, .fieldCount texts.length⟩
  | column (texts : List (List Char)) (column : Nat) (header : String) (text : List Char)
      (fault : FieldFault) (htexts : r.fields.mapM fieldText? = some texts)
      (hcount : texts.length = 8) (hheader : headers[column]? = some header)
      (hfault : FirstColumnFault texts column text fault) :
      FirstDefect number r ⟨r.lineFeeds + 1, .column header text fault⟩

/-! ## One step after the other -/

theorem integerField_eq_ok_iff {header : String} {text : List Char} {n : Int64} :
    integerField header text = .ok n ↔ readCount text = .ok n :=
  mapError_eq_ok_iff

theorem floatField_eq_ok_iff {header : String} {text : List Char} {x : Binary64} :
    floatField header text = .ok x ↔ Binary64.read text = .ok x :=
  mapError_eq_ok_iff

theorem integerField_eq_error_iff {header : String} {text : List Char} {d : Defect} :
    integerField header text = .error d ↔
      ∃ fault, readCount text = .error fault ∧ d = .column header text (.integer fault) :=
  mapError_eq_error_iff

theorem floatField_eq_error_iff {header : String} {text : List Char} {d : Defect} :
    floatField header text = .error d ↔
      ∃ fault, Binary64.read text = .error fault ∧ d = .column header text (.float fault) :=
  mapError_eq_error_iff

/-! ## One record -/

theorem recordOfTexts_eq_ok_iff {texts : List (List Char)} {run : Record} :
    recordOfTexts texts = .ok run ↔ Spells texts run := by
  constructor
  · intro h
    unfold recordOfTexts at h
    split at h
    · simp only [bind_eq_ok_iff, integerField_eq_ok_iff, floatField_eq_ok_iff] at h
      obtain ⟨rows1, h0, cols1, h1, cols2, h2, threads, h3, timeScalar, h4, timeSimd, h5,
        timeMkl, h6, improvement, h7, hrun⟩ := h
      obtain rfl := Except.ok.inj hrun
      exact .intro h0 h1 h2 h3 h4 h5 h6 h7
    · contradiction
  · intro h
    rcases h with ⟨h0, h1, h2, h3, h4, h5, h6, h7⟩
    simp only [recordOfTexts, bind_eq_ok_iff, integerField_eq_ok_iff, floatField_eq_ok_iff]
    exact ⟨_, h0, _, h1, _, h2, _, h3, _, h4, _, h5, _, h6, _, h7, rfl⟩

theorem recordOfTexts_of_length_ne {texts : List (List Char)} (h : texts.length ≠ 8) :
    recordOfTexts texts = .error (.fieldCount texts.length) := by
  unfold recordOfTexts
  split
  · exact absurd rfl h
  · rfl

theorem FirstColumnFault.unique {texts : List (List Char)} {column column' : Nat}
    {text text' : List Char} {fault fault' : FieldFault}
    (h : FirstColumnFault texts column text fault)
    (h' : FirstColumnFault texts column' text' fault') :
    column = column' ∧ text = text' ∧ fault = fault' := by
  rcases Nat.lt_trichotomy column column' with hlt | heq | hgt
  · have hnone := h'.left column hlt text h.text_eq
    simp [h.fault_eq] at hnone
  · subst heq
    obtain rfl : text = text' := Option.some.inj (h.text_eq.symm.trans h'.text_eq)
    exact ⟨rfl, rfl, Option.some.inj (h.fault_eq.symm.trans h'.fault_eq)⟩
  · have hnone := h.left column' hgt text' h'.text_eq
    simp [h'.fault_eq] at hnone

theorem Spells.columnFault?_eq_none {texts : List (List Char)} {run : Record}
    (h : Spells texts run) {column : Nat} {text : List Char} (htext : texts[column]? = some text) :
    columnFault? column text = none := by
  have hlt : column < 8 := by
    obtain ⟨hlt, -⟩ := List.getElem?_eq_some_iff.mp htext
    cases h
    exact hlt
  cases h
  interval_cases column <;>
    · simp only [List.getElem?_cons_zero, List.getElem?_cons_succ, Option.some.injEq] at htext
      subst htext
      simp [columnFault?, *]

theorem FitUpTo.zero (texts : List (List Char)) : FitUpTo texts 0 :=
  fun i hi => absurd hi (Nat.not_lt_zero i)

theorem FitUpTo.succ {texts : List (List Char)} {column : Nat} {text : List Char}
    (h : FitUpTo texts column) (htext : texts[column]? = some text)
    (hfit : columnFault? column text = none) : FitUpTo texts (column + 1) := by
  intro i hi other hother
  rcases Nat.lt_succ_iff_lt_or_eq.mp hi with hlt | rfl
  · exact h i hlt other hother
  · obtain rfl := Option.some.inj (htext.symm.trans hother)
    exact hfit

/-- A defect that names the leftmost column with a broken text, and this text. -/
def NamesFirstFault (texts : List (List Char)) (d : Defect) : Prop :=
  ∃ column header text fault, headers[column]? = some header ∧
    FirstColumnFault texts column text fault ∧ d = .column header text fault

section Step

variable {texts : List (List Char)} {column : Nat} {header : String} {text : List Char} {d : Defect}

/-- Checking one more column either finds the first fault or goes on behind the column. -/
theorem FitUpTo.integerField_bind {next : Int64 → Except Defect Record}
    (hfit : FitUpTo texts column) (htext : texts[column]? = some text)
    (hheader : headers[column]? = some header) (hcolumn : column < 4)
    (h : (integerField header text >>= next) = .error d) :
    NamesFirstFault texts d ∨ FitUpTo texts (column + 1) ∧ ∃ n, next n = .error d := by
  rcases bind_eq_error_iff.mp h with herror | ⟨n, hn, hnext⟩
  · obtain ⟨fault, hfault, rfl⟩ := integerField_eq_error_iff.mp herror
    have hcheck : columnFault? column text = some (.integer fault) := by
      rw [columnFault?, if_pos hcolumn, hfault]
    exact .inl ⟨column, header, text, _, hheader, ⟨htext, hcheck, hfit⟩, rfl⟩
  · have hcheck : columnFault? column text = none := by
      rw [columnFault?, if_pos hcolumn, integerField_eq_ok_iff.mp hn]
    exact .inr ⟨hfit.succ htext hcheck, n, hnext⟩

theorem FitUpTo.floatField_bind {next : Binary64 → Except Defect Record}
    (hfit : FitUpTo texts column) (htext : texts[column]? = some text)
    (hheader : headers[column]? = some header) (hcolumn : ¬ column < 4)
    (h : (floatField header text >>= next) = .error d) :
    NamesFirstFault texts d ∨ FitUpTo texts (column + 1) ∧ ∃ x, next x = .error d := by
  rcases bind_eq_error_iff.mp h with herror | ⟨x, hx, hnext⟩
  · obtain ⟨fault, hfault, rfl⟩ := floatField_eq_error_iff.mp herror
    have hcheck : columnFault? column text = some (.float fault) := by
      rw [columnFault?, if_neg hcolumn, hfault]
    exact .inl ⟨column, header, text, _, hheader, ⟨htext, hcheck, hfit⟩, rfl⟩
  · have hcheck : columnFault? column text = none := by
      rw [columnFault?, if_neg hcolumn, floatField_eq_ok_iff.mp hx]
    exact .inr ⟨hfit.succ htext hcheck, x, hnext⟩

/-- The columns are checked from left to right. -/
theorem namesFirstFault_of_error (h8 : texts.length = 8) (h : recordOfTexts texts = .error d) :
    NamesFirstFault texts d := by
  match texts, h8 with
  | [rows1, cols1, cols2, threads, timeScalar, timeSimd, timeMkl, improvement], _ =>
    have fit0 := FitUpTo.zero
      [rows1, cols1, cols2, threads, timeScalar, timeSimd, timeMkl, improvement]
    rw [recordOfTexts] at h
    rcases fit0.integerField_bind rfl rfl (by decide) h with hfound | ⟨fit1, _, h⟩
    · exact hfound
    rcases fit1.integerField_bind rfl rfl (by decide) h with hfound | ⟨fit2, _, h⟩
    · exact hfound
    rcases fit2.integerField_bind rfl rfl (by decide) h with hfound | ⟨fit3, _, h⟩
    · exact hfound
    rcases fit3.integerField_bind rfl rfl (by decide) h with hfound | ⟨fit4, _, h⟩
    · exact hfound
    rcases fit4.floatField_bind rfl rfl (by decide) h with hfound | ⟨fit5, _, h⟩
    · exact hfound
    rcases fit5.floatField_bind rfl rfl (by decide) h with hfound | ⟨fit6, _, h⟩
    · exact hfound
    rcases fit6.floatField_bind rfl rfl (by decide) h with hfound | ⟨fit7, _, h⟩
    · exact hfound
    rcases fit7.floatField_bind rfl rfl (by decide) h with hfound | ⟨_, _, h⟩
    · exact hfound
    contradiction

end Step

theorem recordOfTexts_eq_error_iff {texts : List (List Char)} (h8 : texts.length = 8)
    {d : Defect} :
    recordOfTexts texts = .error d ↔ NamesFirstFault texts d := by
  refine ⟨namesFirstFault_of_error h8, ?_⟩
  intro h
  rcases h with ⟨column, header, text, fault, hheader, hfault, rfl⟩
  cases hrecord : recordOfTexts texts with
  | ok run =>
      have hnone := (recordOfTexts_eq_ok_iff.mp hrecord).columnFault?_eq_none hfault.text_eq
      simp [hfault.fault_eq] at hnone
  | error other =>
      obtain ⟨column', header', text', fault', hheader', hfault', rfl⟩ :=
        namesFirstFault_of_error h8 hrecord
      obtain ⟨rfl, rfl, rfl⟩ := hfault.unique hfault'
      obtain rfl := Option.some.inj (hheader.symm.trans hheader')
      rfl

theorem readRecord_eq_ok_iff {number : Nat} {r : Csv.Record} {run : Record} :
    readRecord number r = .ok run ↔ Gives r run := by
  unfold readRecord Gives
  cases htexts : fieldTexts 0 r.fields with
  | error fault =>
      have hnone : r.fields.mapM fieldText? = none := by
        rw [Option.eq_none_iff_forall_ne_some]
        intro texts h
        rw [(fieldTexts_eq_ok_iff r.fields 0 texts).mpr h] at htexts
        contradiction
      simp [hnone]
  | ok texts =>
      rw [(fieldTexts_eq_ok_iff r.fields 0 texts).mp htexts]
      simp [mapError_eq_ok_iff, recordOfTexts_eq_ok_iff]

theorem readRecord_eq_error_iff {number : Nat} {r : Csv.Record} {rejection : Rejection} :
    readRecord number r = .error rejection ↔ FirstDefect number r rejection := by
  constructor
  · intro h
    unfold readRecord at h
    split at h
    · next field bytes htexts =>
      obtain ⟨before, broken, after, hfields, hbefore, hbroken, hfault⟩ :=
        (fieldTexts_eq_error_iff r.fields 0 _).mp htexts
      simp only [Prod.mk.injEq, Nat.zero_add] at hfault
      obtain ⟨rfl, rfl⟩ := hfault
      obtain rfl := Except.error.inj h
      exact .notText before broken after hfields hbefore hbroken
    · next texts htexts =>
      have hmap := (fieldTexts_eq_ok_iff r.fields 0 texts).mp htexts
      obtain ⟨d, hd, rfl⟩ := mapError_eq_error_iff.mp h
      by_cases h8 : texts.length = 8
      · obtain ⟨column, header, text, fault, hheader, hfault, rfl⟩ :=
          (recordOfTexts_eq_error_iff h8).mp hd
        exact .column texts column header text fault hmap h8 hheader hfault
      · rw [recordOfTexts_of_length_ne h8] at hd
        obtain rfl := Except.error.inj hd
        exact .fieldCount texts hmap h8
  · intro h
    cases h with
    | notText before field after hfields hbefore hfield =>
        have htexts : fieldTexts 0 r.fields = .error (before.length, trimBytes field) :=
          (fieldTexts_eq_error_iff r.fields 0 _).mpr
            ⟨before, field, after, hfields, hbefore, hfield, by simp⟩
        simp [readRecord, htexts]
    | fieldCount texts htexts hcount =>
        have hfields := (fieldTexts_eq_ok_iff r.fields 0 texts).mpr htexts
        simp [readRecord, hfields, recordOfTexts_of_length_ne hcount, Except.mapError]
    | column texts column header text fault htexts hcount hheader hfault =>
        have hfields := (fieldTexts_eq_ok_iff r.fields 0 texts).mpr htexts
        have hrecord := (recordOfTexts_eq_error_iff hcount).mpr
          ⟨column, header, text, fault, hheader, hfault, rfl⟩
        simp [readRecord, hfields, hrecord, Except.mapError]

theorem FirstDefect.header_mem {number line : Nat} {r : Csv.Record} {header : String}
    {text : List Char} {fault : FieldFault}
    (h : FirstDefect number r ⟨line, .column header text fault⟩) : header ∈ headers := by
  cases h with
  | column texts column _ _ _ _ _ hheader _ => exact List.mem_of_getElem? hheader

theorem FirstDefect.isReportedAs {number : Nat} {r : Csv.Record} {rejection : Rejection}
    (h : FirstDefect number r rejection) :
    rejection.defect.IsReportedAs rejection.defect.reason := by
  obtain ⟨line, d⟩ := rejection
  apply Defect.isReportedAs_reason
  rintro header text fault rfl
  exact h.header_mem

/-! ## All records -/

theorem exists_forall₂_iff {α β : Type} {related : α → β → Prop} (items : List α) :
    (∃ others, List.Forall₂ related items others) ↔ ∀ a ∈ items, ∃ b, related a b := by
  induction items with
  | nil => simp
  | cons a items ih =>
      rw [List.forall_mem_cons, ← ih]
      constructor
      · intro h
        rcases h with ⟨_, _ | ⟨ha, hrest⟩⟩
        exact ⟨⟨_, ha⟩, _, hrest⟩
      · intro h
        rcases h with ⟨⟨b, hb⟩, others, hothers⟩
        exact ⟨b :: others, .cons hb hothers⟩

theorem readRecords_eq_ok_iff (rs : List Csv.Record) {number : Nat} {runs : List Record} :
    readRecords number rs = .ok runs ↔ List.Forall₂ Gives rs runs := by
  induction rs generalizing number runs with
  | nil => simp [readRecords, eq_comm]
  | cons r rs ih =>
      simp only [readRecords, bind_eq_ok_iff, readRecord_eq_ok_iff, ih, List.forall₂_cons_left_iff]
      constructor
      · intro h
        rcases h with ⟨run, hrun, others, hothers, h⟩
        exact ⟨run, others, hrun, hothers, (Except.ok.inj h).symm⟩
      · intro h
        rcases h with ⟨run, others, hrun, hothers, rfl⟩
        exact ⟨run, hrun, others, hothers, rfl⟩

/-- The first record that gives no run ends the loading. -/
theorem readRecords_eq_error_iff (rs : List Csv.Record) {number : Nat} {rejection : Rejection} :
    readRecords number rs = .error rejection ↔
      ∃ before bad after, rs = before ++ bad :: after ∧
        (∀ r ∈ before, ∃ run, Gives r run) ∧
        FirstDefect (number + before.length) bad rejection := by
  induction rs generalizing number with
  | nil => simp [readRecords]
  | cons r rs ih =>
      have hnumber : ∀ n, number + 1 + n = number + (n + 1) := by
        intro n
        omega
      rw [exists_first_cons_iff (fun r => ∃ run, Gives r run)
        (fun n r => FirstDefect (number + n) r rejection)]
      simp only [readRecords, bind_eq_error_iff, readRecord_eq_error_iff, readRecord_eq_ok_iff, ih,
        hnumber, Nat.add_zero]
      constructor
      · intro h
        rcases h with h | ⟨run, hrun, hrest | ⟨_, _, h⟩⟩
        · exact .inl h
        · exact .inr ⟨⟨run, hrun⟩, hrest⟩
        · contradiction
      · intro h
        rcases h with h | ⟨⟨run, hrun⟩, hrest⟩
        · exact .inl h
        · exact .inr ⟨run, hrun, .inl hrest⟩

end Load

namespace Table

open Load (Gives FirstDefect)

theorem load_eq_ok_iff {content : Bytes} {t : Table} :
    load content = .ok t ↔
      ∃ runs, List.Forall₂ Gives ((Csv.records content).drop 1) runs ∧ t.HoldsRuns runs := by
  rw [load, map_eq_ok_iff]
  constructor
  · intro h
    rcases h with ⟨runs, hruns, rfl⟩
    exact ⟨runs, (Load.readRecords_eq_ok_iff _).mp hruns, holdsRuns_ofList runs⟩
  · intro h
    rcases h with ⟨runs, hruns, ht⟩
    exact ⟨runs, (Load.readRecords_eq_ok_iff _).mpr hruns, ht.eq_ofList⟩

theorem load_eq_error_iff {content : Bytes} {rejection : Rejection} :
    load content = .error rejection ↔
      ∃ before bad after, (Csv.records content).drop 1 = before ++ bad :: after ∧
        (∀ r ∈ before, ∃ run, Gives r run) ∧
        FirstDefect (1 + before.length) bad rejection := by
  rw [load, map_eq_error_iff, Load.readRecords_eq_error_iff]

/-- Where reading fails at once, the fault is what is dropped. -/
theorem ofBroken_nil (fault : IoFault) : ofBroken [] fault = .ok .empty := rfl

theorem loadFile_of_get {fs : FileSystem} {p : Path} {content : Bytes}
    (h : fs.get p = .ok (.file content)) :
    loadFile fs p = (load content).mapError Rejection.fault := by
  rw [loadFile, h, ofOpened]

section File

variable {fs : FileSystem} {p : Path} {content : Bytes} (hget : fs.get p = .ok (.file content))
include hget

theorem loadFile_ok_iff_of_get {t : Table} :
    loadFile fs p = .ok t ↔
      ∃ runs, List.Forall₂ Gives ((Csv.records content).drop 1) runs ∧ t.HoldsRuns runs := by
  rw [loadFile_of_get hget, mapError_eq_ok_iff, load_eq_ok_iff]

theorem exists_loadFile_iff_of_get :
    (∃ t, loadFile fs p = .ok t) ↔ ∀ r ∈ (Csv.records content).drop 1, ∃ run, Gives r run := by
  simp only [loadFile_ok_iff_of_get hget]
  rw [← Load.exists_forall₂_iff]
  constructor
  · intro h
    rcases h with ⟨_, runs, hruns, -⟩
    exact ⟨runs, hruns⟩
  · intro h
    rcases h with ⟨runs, hruns⟩
    exact ⟨ofList runs, runs, hruns, holdsRuns_ofList runs⟩

theorem loadFile_error_iff_of_get {fault : Fault} :
    loadFile fs p = .error fault ↔
      ∃ before bad after rejection, (Csv.records content).drop 1 = before ++ bad :: after ∧
        (∀ r ∈ before, ∃ run, Gives r run) ∧
        FirstDefect (1 + before.length) bad rejection ∧ fault = rejection.fault := by
  rw [loadFile_of_get hget, mapError_eq_error_iff]
  simp only [load_eq_error_iff]
  constructor
  · intro h
    rcases h with ⟨rejection, ⟨before, bad, after, hrecords, hbefore, hbad⟩, rfl⟩
    exact ⟨before, bad, after, rejection, hrecords, hbefore, hbad, rfl⟩
  · intro h
    rcases h with ⟨before, bad, after, rejection, hrecords, hbefore, hbad, rfl⟩
    exact ⟨rejection, ⟨before, bad, after, hrecords, hbefore, hbad⟩, rfl⟩

end File

/-- A file loads exactly if each record behind the first one gives a run, and then as the table of
these runs. Otherwise the answer is the first defect of the first record that gives none, with the
line and the words it is reported with. -/
theorem loadFile_spec (fs : FileSystem) (p : Path) (content : Bytes)
    (h : fs.get p = .ok (.file content)) :
    ((∃ t, loadFile fs p = .ok t) ↔ ∀ r ∈ (Csv.records content).drop 1, ∃ run, Gives r run) ∧
    (∀ t, loadFile fs p = .ok t ↔
      ∃ runs, List.Forall₂ Gives ((Csv.records content).drop 1) runs ∧ t.HoldsRuns runs) ∧
    ∀ fault, loadFile fs p = .error fault ↔
      ∃ before bad after rejection reason,
        (Csv.records content).drop 1 = before ++ bad :: after ∧
        (∀ r ∈ before, ∃ run, Gives r run) ∧
        FirstDefect (1 + before.length) bad rejection ∧
        rejection.defect.IsReportedAs reason ∧ fault = .dataFormat rejection.line reason := by
  refine ⟨exists_loadFile_iff_of_get h, fun _ => loadFile_ok_iff_of_get h, fun fault => ?_⟩
  rw [loadFile_error_iff_of_get h]
  constructor
  · intro herror
    rcases herror with ⟨before, bad, after, rejection, hrecords, hbefore, hbad, rfl⟩
    exact ⟨before, bad, after, rejection, _, hrecords, hbefore, hbad, hbad.isReportedAs, rfl⟩
  · intro hreported
    rcases hreported with
      ⟨before, bad, after, rejection, _, hrecords, hbefore, hbad, hreason, rfl⟩
    exact ⟨before, bad, after, rejection, hrecords, hbefore, hbad, by
      rw [hreason.eq_reason, Rejection.fault]⟩

/-- A first line and these lines behind it. -/
def spoiltContent (lines : Bytes) : Bytes := [0x68, 0x0A] ++ lines

def spoiltFile (lines : Bytes) : FileSystem := ⟨[([[0x66]], .file (spoiltContent lines))], [], []⟩

/-- Two lines of which the first one has broken numbers in two columns. -/
def spoiltNumbers : Bytes := Utf8.encode "1,x,3,4,y,6,7,8\n1\n".toList

/-- A good line and one with two fields, which are no numbers either. -/
def spoiltCount : Bytes := Utf8.encode "1,2,3,4,5,6,7,8\nx,y\n".toList

/-- A line with two fields, of which the second one is no text from its second byte on. -/
def spoiltText : Bytes := [0x78, 0x2C, 0x79, 0xFF, 0x0A]

/-- The first of several defects is the one that is reported: a broken text before the number of
fields, and this before the columns, from left to right. -/
theorem loadFile_spec_spoiltFile :
    (∀ lines, (spoiltFile lines).get ⟨[0x66]⟩ = .ok (.file (spoiltContent lines))) ∧
    loadFile (spoiltFile spoiltNumbers) ⟨[0x66]⟩ =
      .error (.dataFormat 2 "column cols1 = \"x\": invalid digit found in string") ∧
    loadFile (spoiltFile spoiltCount) ⟨[0x66]⟩ =
      .error (.dataFormat 3 "expected 8 fields, found 2") ∧
    loadFile (spoiltFile spoiltText) ⟨[0x66]⟩ =
      .error (.dataFormat 2 <|
        "CSV parse error: record 1 (line 2, field: 1, byte: 2): " ++
          "invalid utf-8: invalid UTF-8 in field 1 near byte index 1") := by
  have hget : ∀ lines, (spoiltFile lines).get ⟨[0x66]⟩ = .ok (.file (spoiltContent lines)) :=
    fun _ => rfl
  have herror := fun lines => (loadFile_spec _ _ _ (hget lines)).2.2
  refine ⟨hget, (herror _ _).mpr ?_, (herror _ _).mpr ?_, (herror _ _).mpr ?_⟩
  · let bad : Csv.Record :=
      ⟨[[0x31], [0x78], [0x33], [0x34], [0x79], [0x36], [0x37], [0x38]], 1, 2⟩
    let texts := [['1'], ['x'], ['3'], ['4'], ['y'], ['6'], ['7'], ['8']]
    have hfit : Load.FitUpTo texts 1 := (Load.FitUpTo.zero texts).succ rfl (by decide)
    have hdefect : FirstDefect 1 bad ⟨2, .column "cols1" ['x'] (.integer .invalidDigit)⟩ :=
      .column texts 1 _ _ _ (by decide) rfl rfl ⟨rfl, by decide, hfit⟩
    exact ⟨[], bad, [⟨[[0x31]], 2, 18⟩], _, _, by decide +kernel, by simp, hdefect,
      .column .invalidDigit (by decide +kernel), by decide +kernel⟩
  · let good : Csv.Record :=
      ⟨[[0x31], [0x32], [0x33], [0x34], [0x35], [0x36], [0x37], [0x38]], 1, 2⟩
    let bad : Csv.Record := ⟨[[0x78], [0x79]], 2, 18⟩
    have hgood : Load.readRecord 1 good = .ok ⟨1, 2, 3, 4, 5, 6, 7, 8⟩ := by
      decide +kernel
    have hdefect : FirstDefect 2 bad ⟨3, .fieldCount 2⟩ :=
      .fieldCount [['x'], ['y']] (by decide) (by decide)
    refine ⟨[good], bad, [], _, _, by decide +kernel, ?_, hdefect, .fieldCount 2,
      by decide +kernel⟩
    intro r hr
    obtain rfl := List.mem_singleton.mp hr
    exact ⟨_, Load.readRecord_eq_ok_iff.mp hgood⟩
  · let bad : Csv.Record := ⟨[[0x78], [0x79, 0xFF]], 1, 2⟩
    have hdefect : FirstDefect 1 bad ⟨2, .notText 1 1 2 1 1⟩ :=
      .notText [[0x78]] [0x79, 0xFF] [] rfl (by decide) (by decide)
    exact ⟨[], bad, [], _, _, by decide +kernel, by simp, hdefect, .notText .., by decide +kernel⟩

end Table

end TimingChart
