import TimingChart.Proofs.Bench.Loading
import TimingChart.Proofs.Decimal.Doubles

/-! # What may stand in a column

If all fields of a record but one belong into their columns, this one decides whether the record
is accepted. The first four columns take integers of 64 bits, in base ten or behind `0x` in base
sixteen, and their cells hold these integers. The others take decimals and the words for what is
not finite, and their cells hold the nearest doubles. -/

namespace TimingChart

/-! ## Records with one field in question -/

namespace Load

/-- A record of eight texts that all belong into their columns, but for this one in this column,
of which nothing is said. -/
inductive FitsBut (column : Nat) (text : List Char) (r : Csv.Record) : Prop where
  | intro (texts : List (List Char)) (htexts : r.fields.mapM fieldText? = some texts)
      (hcount : texts.length = 8) (htext : texts[column]? = some text)
      (hothers : ∀ i other, i ≠ column → texts[i]? = some other → columnFault? i other = none)

theorem exists_spells {texts : List (List Char)} (hcount : texts.length = 8)
    (hfit : ∀ i text, texts[i]? = some text → columnFault? i text = none) :
    ∃ run, Spells texts run := by
  cases hrecord : recordOfTexts texts with
  | ok run => exact ⟨run, recordOfTexts_eq_ok_iff.mp hrecord⟩
  | error d =>
      obtain ⟨column, _, text, fault, -, hfault, -⟩ :=
        (recordOfTexts_eq_error_iff hcount).mp hrecord
      have hnone := hfit column text hfault.text_eq
      rw [hfault.fault_eq] at hnone
      contradiction

section FitsBut

variable {column : Nat} {text : List Char} {r : Csv.Record}

/-- One text of a run can be any other one. -/
theorem Spells.fitsBut {texts : List (List Char)} {run : Record} (h : Spells texts run)
    (hcolumn : column < 8) (htexts : r.fields.mapM fieldText? = some (texts.set column text)) :
    FitsBut column text r := by
  have hlength : texts.length = 8 := by
    cases h
    rfl
  refine .intro _ htexts ?_ ?_ fun i other hi hother => ?_
  · rw [List.length_set, hlength]
  · exact List.getElem?_set_self (hlength ▸ hcolumn)
  · rw [List.getElem?_set_ne hi.symm] at hother
    exact h.columnFault?_eq_none hother

/-- Nothing but the field in question can keep the record from giving a run. -/
theorem FitsBut.gives_iff (h : FitsBut column text r) :
    (∃ run, Gives r run) ↔ columnFault? column text = none := by
  obtain ⟨texts, htexts, hcount, htext, hothers⟩ := h
  constructor
  · rintro ⟨run, texts', htexts', hspells⟩
    obtain rfl := Option.some.inj (htexts.symm.trans htexts')
    exact hspells.columnFault?_eq_none htext
  · intro hnone
    obtain ⟨run, hrun⟩ : ∃ run, Spells texts run := by
      refine exists_spells hcount fun i other hother => ?_
      by_cases hi : i = column
      · subst hi
        obtain rfl := Option.some.inj (htext.symm.trans hother)
        exact hnone
      · exact hothers i other hi hother
    exact ⟨run, texts, htexts, hrun⟩

theorem FitsBut.firstDefect (h : FitsBut column text r) {header : String} {fault : FieldFault}
    (hheader : headers[column]? = some header) (hfault : columnFault? column text = some fault)
    (number : Nat) : FirstDefect number r ⟨r.lineFeeds + 1, .column header text fault⟩ := by
  obtain ⟨texts, htexts, hcount, htext, hothers⟩ := h
  exact .column texts column header text fault htexts hcount hheader
    ⟨htext, hfault, fun i hi other hother => hothers i other hi.ne hother⟩

end FitsBut

theorem spells_oneToEight :
    Spells [['1'], ['2'], ['3'], ['4'], ['5'], ['6'], ['7'], ['8']] ⟨1, 2, 3, 4, 5, 6, 7, 8⟩ :=
  recordOfTexts_eq_ok_iff.mp (by decide +kernel)

end Load

/-! ## Integer columns -/

namespace Load

open Numeral (Signed Refused FitsInt64)

/-- The integer that a text stands for, in base ten, or in base sixteen behind `0x`. -/
inductive IntegerText : List Char → Int → Prop where
  | decimal {text : List Char} {n : Int} (h : Signed 10 text n) : IntegerText text n
  | hexadecimal {digits : List Char} {n : Int} (h : Signed 16 digits n) :
      IntegerText ('0' :: 'x' :: digits) n

/-- Why a text that stands for no integer is refused. -/
inductive IntegerRefused : List Char → IntegerFault → Prop where
  | decimal {text : List Char} {fault : IntegerFault}
      (h : Refused 10 (-0x8000000000000000) 0x7FFFFFFFFFFFFFFF text fault) :
      IntegerRefused text fault
  | hexadecimal {digits : List Char} {fault : IntegerFault}
      (h : Refused 16 (-0x8000000000000000) 0x7FFFFFFFFFFFFFFF digits fault) :
      IntegerRefused ('0' :: 'x' :: digits) fault

/-- No sign and no digit of base ten is an `x`. -/
theorem not_signed_ten (digits : List Char) (n : Int) : ¬ Signed 10 ('0' :: 'x' :: digits) n := by
  intro h
  generalize htext : '0' :: 'x' :: digits = text at h
  obtain ⟨hsign, hdigits⟩ := h
  cases hsign with
  | none =>
      subst htext
      obtain ⟨d, hd⟩ := hdigits.exists_isDigit (List.mem_cons_of_mem _ List.mem_cons_self)
      exact absurd (Numeral.isDigit_ten_iff.mp hd).1 (by decide)
  | plus | minus => simp at htext

/-- Each text is read in one base, in which it stands for what it stands for at all. -/
theorem exists_base (text : List Char) :
    ∃ base digits, base ≤ 16 ∧ readCount text = Numeral.readInt64 base digits ∧
      (∀ n, IntegerText text n ↔ Signed base digits n) ∧
      ∀ fault, Refused base (-0x8000000000000000) 0x7FFFFFFFFFFFFFFF digits fault →
        IntegerRefused text fault := by
  unfold readCount
  split
  · next digits =>
    refine ⟨16, digits, Nat.le_refl 16, rfl, fun n => ⟨?_, .hexadecimal⟩, fun _ => .hexadecimal⟩
    intro h
    cases h with
    | decimal h => exact absurd h (not_signed_ten digits n)
    | hexadecimal h => exact h
  · next hnot =>
    refine ⟨10, _, by decide, rfl, fun n => ⟨?_, .decimal⟩, fun _ => .decimal⟩
    intro h
    cases h with
    | decimal h => exact h
    | hexadecimal h => exact absurd rfl (hnot _)

section Read

variable {text : List Char} {n : Int}

theorem IntegerText.readCount_eq (h : IntegerText text n) :
    readCount text =
      if 0x7FFFFFFFFFFFFFFF < n then .error .tooLarge
      else if n < -0x8000000000000000 then .error .tooSmall else .ok (.ofInt n) := by
  obtain ⟨base, digits, hbase, hread, htext, -⟩ := exists_base text
  rw [hread, ((htext n).mp h).readInt64_eq hbase]

theorem IntegerText.readCount_of_fits (h : IntegerText text n) (hfits : FitsInt64 n) :
    readCount text = .ok (.ofInt n) := by
  obtain ⟨hlow, hhigh⟩ := hfits
  rw [h.readCount_eq, if_neg (by omega), if_neg (by omega)]

theorem exists_integerRefused (h : ∀ n, ¬ IntegerText text n) :
    ∃ fault, readCount text = .error fault ∧ IntegerRefused text fault := by
  obtain ⟨base, digits, hbase, hread, htext, hrefused⟩ := exists_base text
  obtain ⟨fault, herror, hfault⟩ :=
    Numeral.exists_refused_int64 hbase fun n hn => h n ((htext n).mpr hn)
  exact ⟨fault, hread.trans herror, hrefused fault hfault⟩

theorem readCount_eq_ok_iff {v : Int64} : readCount text = .ok v ↔ IntegerText text v.toInt := by
  obtain ⟨base, digits, hbase, hread, htext, -⟩ := exists_base text
  rw [hread, htext, Numeral.readInt64_eq_ok_iff hbase]

end Read

section Column

variable {column : Nat} (hcolumn : column < 4) {text : List Char}
include hcolumn

theorem columnFault?_of_readCount {fault : IntegerFault} (h : readCount text = .error fault) :
    columnFault? column text = some (.integer fault) := by
  rw [columnFault?, if_pos hcolumn, h]

theorem columnFault?_eq_none_iff_integerText :
    columnFault? column text = none ↔ ∃ n, IntegerText text n ∧ FitsInt64 n := by
  rw [columnFault?, if_pos hcolumn]
  constructor
  · intro h
    split at h
    · next v hv =>
      have hlow : -0x8000000000000000 ≤ v.toInt := Int64.le_toInt v
      have hhigh : v.toInt < 0x8000000000000000 := Int64.toInt_lt v
      exact ⟨v.toInt, readCount_eq_ok_iff.mp hv, by omega, by omega⟩
    · contradiction
  · intro h
    obtain ⟨n, hn, hfits⟩ := h
    rw [hn.readCount_of_fits hfits]

end Column

end Load

/-! ## Columns of doubles -/

namespace Load

open Binary64 (NumberText WordText)

section Column

variable {column : Nat} (hcolumn : ¬ column < 4) {text : List Char}
include hcolumn

theorem columnFault?_of_read {fault : FloatFault} (h : Binary64.read text = .error fault) :
    columnFault? column text = some (.float fault) := by
  rw [columnFault?, if_neg hcolumn, h]

theorem columnFault?_eq_none_iff_double :
    columnFault? column text = none ↔
      (∃ negative d k, NumberText text negative d k) ∨ ∃ x, WordText text x := by
  rw [columnFault?, if_neg hcolumn, ← Binary64.exists_read_iff]
  cases Binary64.read text <;> simp

end Column

end Load

/-! ## Cells -/

/-- The values of a run in the integer columns. -/
def Record.integers (r : Record) : List Int64 := [r.rows1, r.cols1, r.cols2, r.threads]

/-- The values of a run in the other columns. -/
def Record.doubles (r : Record) : List Binary64 :=
  [r.timeScalar, r.timeSimd, r.timeMkl, r.improvement]

namespace Load

variable {texts : List (List Char)} {run : Record} {column : Nat} {text : List Char}
  {r : Csv.Record}

theorem Spells.readCount_eq (h : Spells texts run) (hcolumn : column < 4)
    (htext : texts[column]? = some text) :
    ∃ n, run.integers[column]? = some n ∧ readCount text = .ok n := by
  cases h
  interval_cases column <;>
    · obtain rfl := Option.some.inj htext
      exact ⟨_, rfl, by assumption⟩

theorem Spells.read_eq (h : Spells texts run) (hcolumn : column < 4)
    (htext : texts[4 + column]? = some text) :
    ∃ x, run.doubles[column]? = some x ∧ Binary64.read text = .ok x := by
  cases h
  interval_cases column <;>
    · obtain rfl := Option.some.inj htext
      exact ⟨_, rfl, by assumption⟩

theorem FitsBut.exists_spells (h : FitsBut column text r) (hrun : Gives r run) :
    ∃ texts, texts[column]? = some text ∧ Spells texts run := by
  obtain ⟨texts, htexts, -, htext, -⟩ := h
  obtain ⟨texts', htexts', hspells⟩ := hrun
  obtain rfl := Option.some.inj (htexts.symm.trans htexts')
  exact ⟨texts, htext, hspells⟩

end Load

namespace Table

open Load (Gives FitsBut IntegerText IntegerRefused)
open Numeral (FitsInt64)
open Binary64 (NumberText WordText signedValue)

/-- The integer in a row of one of the first four columns. -/
def integer? (t : Table) (column row : Nat) : Option Int64 :=
  [t.rows1, t.cols1, t.cols2, t.threads][column]?.bind fun values => values[row]?

/-- The double in a row of one of the last four columns. -/
def double? (t : Table) (column row : Nat) : Option Binary64 :=
  [t.timeScalar, t.timeSimd, t.timeMkl, t.improvement][column]?.bind fun values => values[row]?

section Cell

variable {t : Table} {runs : List Record} (h : t.HoldsRuns runs) {row : Nat} {run : Record}
  (hrun : runs[row]? = some run) (column : Nat)
include h hrun

theorem HoldsRuns.integer? : t.integer? column row = run.integers[column]? := by
  rw [Table.integer?, h.rows1, h.cols1, h.cols2, h.threads, Record.integers]
  match column with
  | 0 | 1 | 2 | 3 => simp [hrun]
  | _ + 4 => rfl

theorem HoldsRuns.double? : t.double? column row = run.doubles[column]? := by
  rw [Table.double?, h.timeScalar, h.timeSimd, h.timeMkl, h.improvement, Record.doubles]
  match column with
  | 0 | 1 | 2 | 3 => simp [hrun]
  | _ + 4 => rfl

end Cell

section Row

variable {fs : FileSystem} {p : Path} {content : Bytes} (hget : fs.get p = .ok (.file content))
  {before after : List Csv.Record} {r : Csv.Record}
  (hrecords : (Csv.records content).drop 1 = before ++ r :: after)
  (hbefore : ∀ r' ∈ before, ∃ run, Gives r' run)
include hget hrecords

/-- The run in the row of a record is the one that the record gives. -/
theorem exists_row {t : Table} (ht : loadFile fs p = .ok t) :
    ∃ runs run, t.HoldsRuns runs ∧ runs[before.length]? = some run ∧ Gives r run := by
  obtain ⟨runs, hruns, hholds⟩ := (loadFile_ok_iff_of_get hget).mp ht
  rw [hrecords] at hruns
  have hdrop := List.forall₂_drop before.length hruns
  rw [List.drop_left, List.forall₂_cons_left_iff] at hdrop
  obtain ⟨run, others, hrun, -, hothers⟩ := hdrop
  refine ⟨runs, run, hholds, ?_, hrun⟩
  rw [← List.head?_drop, hothers, List.head?_cons]

include hbefore

/-- Where nothing else is wrong, the field in question is read into the row of its record. -/
theorem exists_spells_row {column : Nat} {text : List Char} (hfits : FitsBut column text r)
    (hnone : Load.columnFault? column text = none) (hafter : ∀ r' ∈ after, ∃ run, Gives r' run) :
    ∃ t runs run texts, loadFile fs p = .ok t ∧ t.HoldsRuns runs ∧
      runs[before.length]? = some run ∧ texts[column]? = some text ∧ Load.Spells texts run := by
  have hload : ∃ t, loadFile fs p = .ok t := by
    rw [exists_loadFile_iff_of_get hget, hrecords]
    intro r' hr'
    rcases List.mem_append.mp hr' with hr' | hr'
    · exact hbefore r' hr'
    · rcases List.mem_cons.mp hr' with rfl | hr'
      · exact hfits.gives_iff.mpr hnone
      · exact hafter r' hr'
  obtain ⟨t, ht⟩ := hload
  obtain ⟨runs, run, hholds, hrow, hrun⟩ := exists_row hget hrecords ht
  obtain ⟨texts, htext, hspells⟩ := hfits.exists_spells hrun
  exact ⟨t, runs, run, texts, ht, hholds, hrow, htext, hspells⟩

section Cell

variable {column : Nat} (hcolumn : column < 4) {text : List Char}
  (hafter : ∀ r' ∈ after, ∃ run, Gives r' run)
include hcolumn hafter

theorem exists_integer?_eq (hfits : FitsBut column text r) {n : Int64}
    (hread : Load.readCount text = .ok n) :
    ∃ t, loadFile fs p = .ok t ∧ t.integer? column before.length = some n := by
  have hnone : Load.columnFault? column text = none := by
    rw [Load.columnFault?, if_pos hcolumn, hread]
  obtain ⟨t, runs, run, texts, ht, hholds, hrow, htext, hspells⟩ :=
    exists_spells_row hget hrecords hbefore hfits hnone hafter
  obtain ⟨m, hm, hread'⟩ := hspells.readCount_eq hcolumn htext
  obtain rfl := Except.ok.inj (hread.symm.trans hread')
  exact ⟨t, ht, (hholds.integer? hrow column).trans hm⟩

theorem exists_double?_eq (hfits : FitsBut (4 + column) text r) {x : Binary64}
    (hread : Binary64.read text = .ok x) :
    ∃ t, loadFile fs p = .ok t ∧ t.double? column before.length = some x := by
  have hnone : Load.columnFault? (4 + column) text = none := by
    rw [Load.columnFault?, if_neg (by omega), hread]
  obtain ⟨t, runs, run, texts, ht, hholds, hrow, htext, hspells⟩ :=
    exists_spells_row hget hrecords hbefore hfits hnone hafter
  obtain ⟨y, hy, hread'⟩ := hspells.read_eq hcolumn htext
  obtain rfl := Except.ok.inj (hread.symm.trans hread')
  exact ⟨t, ht, (hholds.double? hrow column).trans hy⟩

end Cell

theorem loadFile_of_columnFault {column : Nat} {text : List Char} {header : String}
    {fault : FieldFault} (hfits : FitsBut column text r)
    (hheader : headers[column]? = some header)
    (hfault : Load.columnFault? column text = some fault) :
    loadFile fs p =
      .error (.dataFormat (r.lineFeeds + 1) (columnReason header text fault.message)) := by
  rw [loadFile_error_iff_of_get hget]
  exact ⟨before, r, after, _, hrecords, hbefore, hfits.firstDefect hheader hfault _, rfl⟩

end Row

/-- An integer column takes the texts of 64 bit integers, and a cell holds its integer. A text
that is out of range is refused as such, and one that is no integer at the first character that
breaks it, unless what is in front of it is out of range already. -/
theorem loadFile_integerColumn {fs : FileSystem} {p : Path} {content : Bytes}
    (hget : fs.get p = .ok (.file content)) {before after : List Csv.Record} {r : Csv.Record}
    (hrecords : (Csv.records content).drop 1 = before ++ r :: after)
    (hbefore : ∀ r' ∈ before, ∃ run, Gives r' run) {column : Nat} (hcolumn : column < 4)
    {header : String} (hheader : headers[column]? = some header) {text : List Char}
    (hfits : FitsBut column text r) :
    (∀ number, (∃ run, Load.readRecord number r = .ok run) ↔
      ∃ n, IntegerText text n ∧ FitsInt64 n) ∧
    (∀ n, IntegerText text n → FitsInt64 n → (∀ r' ∈ after, ∃ run, Gives r' run) →
      ∃ t, loadFile fs p = .ok t ∧ (t.integer? column before.length).map Int64.toInt = some n) ∧
    (∀ n, IntegerText text n → 0x7FFFFFFFFFFFFFFF < n →
      loadFile fs p = .error (.dataFormat (r.lineFeeds + 1)
        (columnReason header text "number too large to fit in target type"))) ∧
    (∀ n, IntegerText text n → n < -0x8000000000000000 →
      loadFile fs p = .error (.dataFormat (r.lineFeeds + 1)
        (columnReason header text "number too small to fit in target type"))) ∧
    ((∀ n, ¬ IntegerText text n) → ∃ fault problem, IntegerRefused text fault ∧
      (FieldFault.integer fault).IsCalled problem ∧
      loadFile fs p = .error (.dataFormat (r.lineFeeds + 1)
        (columnReason header text problem))) := by
  have hgives := hfits.gives_iff.trans (Load.columnFault?_eq_none_iff_integerText hcolumn)
  have herror : ∀ fault, Load.readCount text = .error fault →
      loadFile fs p =
        .error (.dataFormat (r.lineFeeds + 1) (columnReason header text fault.message)) :=
    fun fault hfault => loadFile_of_columnFault hget hrecords hbefore hfits hheader
      (Load.columnFault?_of_readCount hcolumn hfault)
  refine ⟨fun number => ?_, ?_, ?_, ?_, ?_⟩
  · simp only [Load.readRecord_eq_ok_iff, hgives]
  · intro n hn hrange hafter
    obtain ⟨t, ht, hcell⟩ := exists_integer?_eq hget hrecords hbefore hcolumn hafter hfits
      (hn.readCount_of_fits hrange)
    exact ⟨t, ht, by rw [hcell, Option.map_some, Numeral.toInt_ofInt hrange]⟩
  · intro n hn hhigh
    exact herror .tooLarge (by rw [hn.readCount_eq, if_pos hhigh])
  · intro n hn hlow
    exact herror .tooSmall (by rw [hn.readCount_eq, if_neg (by omega), if_pos hlow])
  · intro hnot
    obtain ⟨fault, hfault, hrefused⟩ := Load.exists_integerRefused hnot
    exact ⟨fault, _, hrefused, FieldFault.isCalled_iff.mpr rfl, herror fault hfault⟩

/-- A first line, a record with this text in its third column, and a record below it. -/
def integerContent (text : List Char) : Bytes :=
  Utf8.encode ("h\n1,2,".toList ++ text ++ ",4,5,6,7,8\n8,7,6,5,4,3,2,1".toList)

def integerFile (text : List Char) : FileSystem :=
  ⟨[([[0x66]], .file (integerContent text))], [], []⟩

/-- The least integer, one less, and a text that is no integer. -/
theorem loadFile_integerColumn_leastIntegerFile :
    (∀ text, (integerFile text).get ⟨[0x66]⟩ = .ok (.file (integerContent text))) ∧
    (∃ t, loadFile (integerFile "0x-008000000000000000".toList) ⟨[0x66]⟩ = .ok t ∧
      (t.integer? 2 0).map Int64.toInt = some (-0x8000000000000000)) ∧
    loadFile (integerFile "-9223372036854775809".toList) ⟨[0x66]⟩ = .error (.dataFormat 2
      "column cols2 = \"-9223372036854775809\": number too small to fit in target type") ∧
    ∃ fault problem, IntegerRefused "1.5".toList fault ∧
      (FieldFault.integer fault).IsCalled problem ∧
      loadFile (integerFile "1.5".toList) ⟨[0x66]⟩ =
        .error (.dataFormat 2 (columnReason "cols2" "1.5".toList problem)) := by
  have hget : ∀ text, (integerFile text).get ⟨[0x66]⟩ = .ok (.file (integerContent text)) :=
    fun _ => rfl
  let r (text : List Char) : Csv.Record :=
    ⟨[[0x31], [0x32], Utf8.encode text, [0x34], [0x35], [0x36], [0x37], [0x38]], 1, 2⟩
  let last (offset : Nat) : Csv.Record :=
    ⟨[[0x38], [0x37], [0x36], [0x35], [0x34], [0x33], [0x32], [0x31]], 2, offset⟩
  have hlast : Load.readRecord 2 (last 38) = .ok ⟨8, 7, 6, 5, 4, 3, 2, 1⟩ := by
    decide +kernel
  have hfits : ∀ text, Load.fieldText? (Utf8.encode text) = some text →
      FitsBut 2 text (r text) := by
    intro text htext
    refine Load.spells_oneToEight.fitsBut (by decide) ?_
    simp only [r, List.mapM_cons, htext]
    rfl
  have hspec := fun text offset (htext : Load.fieldText? (Utf8.encode text) = some text)
      (hrecords : (Csv.records (integerContent text)).drop 1 = [] ++ r text :: [last offset]) =>
    loadFile_integerColumn (hget text) hrecords (by simp) (by decide) rfl (hfits text htext)
  refine ⟨hget, ?_, ?_, ?_⟩
  · have hleast : FitsInt64 (-0x8000000000000000) := ⟨by decide, by decide⟩
    have hinteger : IntegerText "0x-008000000000000000".toList (-0x8000000000000000) := by
      rw [← Numeral.toInt_ofInt hleast]
      exact Load.readCount_eq_ok_iff.mp (by decide +kernel)
    refine (hspec _ 38 (by decide +kernel) (by decide +kernel)).2.1 _ hinteger hleast ?_
    intro r' hr'
    obtain rfl := List.mem_singleton.mp hr'
    exact ⟨_, Load.readRecord_eq_ok_iff.mp hlast⟩
  · have hinteger : IntegerText "-9223372036854775809".toList (-9223372036854775809) :=
      .decimal (.intro .minus (Numeral.digits_ten_iff.mpr ⟨by decide, by decide, rfl⟩))
    have hload := (hspec "-9223372036854775809".toList 37 (by decide +kernel)
      (by decide +kernel)).2.2.2.1 _ hinteger (by decide)
    exact hload.trans (by decide +kernel)
  · refine (hspec _ 20 (by decide +kernel) (by decide +kernel)).2.2.2.2 ?_
    intro n hn
    have hread := hn.readCount_eq
    have herror : Load.readCount "1.5".toList = .error .invalidDigit := by decide +kernel
    rw [herror] at hread
    split at hread
    · contradiction
    · split at hread <;> contradiction

/-- The other columns take decimals and words, and a cell holds the double that is nearest to its
decimal, with the sign of the text. -/
theorem loadFile_doubleColumn {fs : FileSystem} {p : Path} {content : Bytes}
    (hget : fs.get p = .ok (.file content)) {before after : List Csv.Record} {r : Csv.Record}
    (hrecords : (Csv.records content).drop 1 = before ++ r :: after)
    (hbefore : ∀ r' ∈ before, ∃ run, Gives r' run) {column : Nat} (hcolumn : column < 4)
    {header : String} (hheader : headers[4 + column]? = some header) {text : List Char}
    (hfits : FitsBut (4 + column) text r) :
    (∀ number, (∃ run, Load.readRecord number r = .ok run) ↔
      (∃ negative d k, NumberText text negative d k) ∨ ∃ x, WordText text x) ∧
    (∀ negative d k, NumberText text negative d k → k.natAbs < 65536 →
      (∀ r' ∈ after, ∃ run, Gives r' run) →
      ∃ t x, loadFile fs p = .ok t ∧ t.double? column before.length = some x ∧
        (∀ y, Binary64.IsNearest negative (signedValue negative d) y ↔ y = x) ∧
        x.negative = negative ∧ (x = .infinite negative ↔ (2 ^ 54 - 1) * 2 ^ 970 ≤ d.toRat)) ∧
    (∀ x, WordText text x → (∀ r' ∈ after, ∃ run, Gives r' run) →
      ∃ t, loadFile fs p = .ok t ∧ t.double? column before.length = some x) ∧
    ((∀ negative d k, ¬ NumberText text negative d k) → (∀ x, ¬ WordText text x) →
      loadFile fs p = .error (.dataFormat (r.lineFeeds + 1) (columnReason header text
        (if text = [] then "cannot parse float from empty string"
          else "invalid float literal")))) := by
  have hnot : ¬ 4 + column < 4 := by omega
  have hgives := hfits.gives_iff.trans (Load.columnFault?_eq_none_iff_double hnot)
  refine ⟨fun number => ?_, ?_, ?_, ?_⟩
  · simp only [Load.readRecord_eq_ok_iff, hgives]
  · intro negative d k hnumber hk hafter
    obtain ⟨x, hread, hnearest⟩ := hnumber.exists_read
    obtain ⟨t, ht, hx⟩ := exists_double?_eq hget hrecords hbefore hcolumn hafter hfits hread
    have hinfinite := (hnearest hk).eq_infinite_iff
    rw [Binary64.abs_signedValue] at hinfinite
    exact ⟨t, x, ht, hx, fun y => ⟨fun hy => hy.unique (hnearest hk), fun hy => hy ▸ hnearest hk⟩,
      (hnearest hk).negative_eq, hinfinite⟩
  · intro x hword hafter
    exact exists_double?_eq hget hrecords hbefore hcolumn hafter hfits hword.read_eq
  · intro hnumber hword
    have hnone : ¬ ∃ x, Binary64.read text = .ok x := by
      rw [Binary64.exists_read_iff]
      rintro (⟨negative, d, k, h⟩ | ⟨x, h⟩)
      · exact hnumber negative d k h
      · exact hword x h
    cases hread : Binary64.read text with
    | ok x => exact absurd ⟨x, hread⟩ hnone
    | error fault =>
        rw [loadFile_of_columnFault hget hrecords hbefore hfits hheader
          (Load.columnFault?_of_read hnot hread), Binary64.read_eq_error hread]
        split <;> rfl

/-- A first line, and a record with this field in its seventh column. -/
def doubleContent (field : List Char) : Bytes :=
  Utf8.encode ("h\n1,2,3,4,5,6,".toList ++ field ++ ",8".toList)

def doubleFile (field : List Char) : FileSystem :=
  ⟨[([[0x66]], .file (doubleContent field))], [], []⟩

/-- A text with a sign, a point and an exponent, one with nothing but a point, and one with nothing
but blanks. -/
theorem loadFile_doubleColumn_pointedFile :
    (∀ field, (doubleFile field).get ⟨[0x66]⟩ = .ok (.file (doubleContent field))) ∧
    (∃ t, loadFile (doubleFile " -.50E+1 ".toList) ⟨[0x66]⟩ = .ok t ∧
      t.double? 2 0 = some (.nearest true (-5))) ∧
    loadFile (doubleFile ".".toList) ⟨[0x66]⟩ =
      .error (.dataFormat 2 "column time_mkl = \".\": invalid float literal") ∧
    loadFile (doubleFile "  ".toList) ⟨[0x66]⟩ =
      .error (.dataFormat 2 "column time_mkl = \"\": cannot parse float from empty string") := by
  have hget : ∀ field, (doubleFile field).get ⟨[0x66]⟩ = .ok (.file (doubleContent field)) :=
    fun _ => rfl
  let r (field : List Char) : Csv.Record :=
    ⟨[[0x31], [0x32], [0x33], [0x34], [0x35], [0x36], Utf8.encode field, [0x38]], 1, 2⟩
  have hfits : ∀ field text, Load.fieldText? (Utf8.encode field) = some text →
      FitsBut (4 + 2) text (r field) := by
    intro field text htext
    refine Load.spells_oneToEight.fitsBut (by decide) ?_
    simp only [r, List.mapM_cons, htext]
    rfl
  have hspec := fun field text (htext : Load.fieldText? (Utf8.encode field) = some text)
      (hrecords : (Csv.records (doubleContent field)).drop 1 = [] ++ r field :: []) =>
    loadFile_doubleColumn (hget field) hrecords (by simp) (by decide) rfl (hfits field text htext)
  have hrefused : ∀ {text : List Char} {fault : FloatFault}, Binary64.read text = .error fault →
      (∀ negative d k, ¬ NumberText text negative d k) ∧ ∀ x, ¬ WordText text x := by
    intro text fault herror
    have hnone : ¬ ∃ x, Binary64.read text = .ok x := by simp [herror]
    rw [Binary64.exists_read_iff] at hnone
    exact ⟨fun _ _ _ h => hnone (.inl ⟨_, _, _, h⟩), fun _ h => hnone (.inr ⟨_, h⟩)⟩
  refine ⟨hget, ?_, ?_, ?_⟩
  · have hfive : Numeral.Digits 10 ['5', '0'] 50 :=
      Numeral.digits_ten_iff.mpr ⟨by decide, by decide, rfl⟩
    have hpoint : Decimal.Mantissa ([] ++ '.' :: ['5', '0']) 50 2 := .point hfive
    have hone : Numeral.Signed 10 ['+', '1'] 1 :=
      .intro .plus (Numeral.digits_ten_iff.mpr ⟨by decide, by decide, rfl⟩)
    have hnumber : NumberText "-.50E+1".toList true ⟨50, 1 - 2⟩ 1 :=
      .intro .minus (.intro hpoint (.given (.inr rfl) hone))
    have hspec := hspec " -.50E+1 ".toList "-.50E+1".toList (by decide +kernel) (by decide +kernel)
    obtain ⟨t, x, ht, hx, hnearest, -, -⟩ := hspec.2.1 true _ 1 hnumber (by decide) (by simp)
    have hvalue : Binary64.nearest true (-5) = x := by
      rw [← hnearest, Binary64.isNearest_iff (Binary64.hasSign_signedValue true _)]
      decide +kernel
    exact ⟨t, ht, hvalue ▸ hx⟩
  · have hnone := hrefused (show Binary64.read ".".toList = .error .invalid by decide +kernel)
    have hload := (hspec ".".toList ".".toList (by decide +kernel)
      (by decide +kernel)).2.2.2 hnone.1 hnone.2
    exact hload.trans (by decide +kernel)
  · have hnone := hrefused (show Binary64.read [] = .error .empty by decide +kernel)
    have hload := (hspec "  ".toList [] (by decide +kernel)
      (by decide +kernel)).2.2.2 hnone.1 hnone.2
    exact hload.trans (by decide +kernel)

end Table

end TimingChart
