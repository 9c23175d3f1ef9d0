import TimingChart.Proofs.Bench.Loading
import TimingChart.Proofs.Files.Opening
import TimingChart.Proofs.Run.Endings

/-! # Files that cannot be read

A path that cannot be opened is reported, and a run on it changes nothing. If a file can be opened
and reading it fails, the fault is reported only if a record has ended before: the first item that
reading gives is dropped, and so is a fault that comes first. That is how directories load. -/

namespace TimingChart

/-! ## Reading that fails half way -/

namespace Load

/-- As long as there are records, they are read as those of any file. -/
theorem readItems_map_ok (rs : List Csv.Record) (number : Nat) :
    readItems number (rs.map .ok) = (readRecords number rs).mapError Rejection.fault := by
  induction rs generalizing number with
  | nil => rfl
  | cons r rs ih =>
      rw [List.map_cons, readItems, readRecords, ih]
      cases readRecord number r with
      | error rejection => rfl
      | ok run => cases readRecords (number + 1) rs <;> rfl

/-- A fault is reported unless a record before it is rejected. -/
theorem readItems_concat_error (rs : List Csv.Record) (number : Nat) (fault : IoFault) :
    readItems number (rs.map .ok ++ [.error fault]) =
      (readItems number (rs.map .ok) >>= fun _ => .error (.io fault)) := by
  induction rs generalizing number with
  | nil => rfl
  | cons r rs ih =>
      rw [List.map_cons, List.cons_append, readItems, readItems, ih]
      cases readRecord number r with
      | error rejection => rfl
      | ok run => cases readItems (number + 1) (rs.map .ok) <;> rfl

end Load

namespace Table

variable {bytes : Bytes} {fault : IoFault}

theorem ofBroken_of_endedRecords {first : Csv.Record} {rest : List Csv.Record}
    (h : Csv.endedRecords bytes = first :: rest) :
    ofBroken bytes fault =
      ((Load.readRecords 1 rest).mapError Rejection.fault >>= fun _ => .error (.io fault)) := by
  rw [ofBroken, Csv.brokenItems, h, List.map_cons, List.cons_append, List.drop_one, List.tail_cons,
    Load.readItems_concat_error, Load.readItems_map_ok]
  cases Load.readRecords 1 rest <;> rfl

/-- A fault behind which nothing more comes is missed exactly if it comes before the end of the first
record. -/
theorem ofBroken_eq_ok_iff {t : Table} :
    ofBroken bytes fault = .ok t ↔ Csv.endedRecords bytes = [] ∧ t = .empty := by
  cases h : Csv.endedRecords bytes with
  | nil =>
      have hempty : ofBroken bytes fault = .ok .empty := by
        rw [ofBroken, Csv.brokenItems, h]
        rfl
      rw [hempty, Except.ok.injEq, eq_comm, and_iff_right rfl]
  | cons first rest =>
      rw [ofBroken_of_endedRecords h, bind_eq_ok_iff]
      constructor
      · rintro ⟨_, _, ⟨⟩⟩
      · rintro ⟨⟨⟩, _⟩

/-- Behind the end of the first record, the first defect is reported as ever, and otherwise the
fault. -/
theorem ofBroken_eq_error_iff {first : Csv.Record} {rest : List Csv.Record} {e : Fault}
    (h : Csv.endedRecords bytes = first :: rest) :
    ofBroken bytes fault = .error e ↔
      (∃ rejection, Load.readRecords 1 rest = .error rejection ∧ e = rejection.fault) ∨
        (∃ runs, Load.readRecords 1 rest = .ok runs) ∧ e = .io fault := by
  rw [ofBroken_of_endedRecords h, bind_eq_error_iff, mapError_eq_error_iff]
  simp only [mapError_eq_ok_iff, Except.error.injEq, exists_and_right]
  rw [eq_comm (a := e) (b := .io fault)]

/-! ## Opening that fails -/

variable {fs : FileSystem} {p : Path}

theorem loadFile_of_get_error (h : fs.get p = .error fault) :
    loadFile fs p = .error (if fault = .os .notFound then .fileNotFound p else .io fault) := by
  rw [loadFile, h]
  by_cases hfault : fault = .os .notFound
  · rw [if_pos hfault, hfault]
    rfl
  · rw [if_neg hfault]
    unfold ofOpened
    split
    · next heq => exact absurd (Except.error.inj heq) hfault
    · next heq =>
      cases heq
      rfl
    · contradiction
    · contradiction

theorem loadFile_of_directory (h : fs.get p = .ok .directory) : loadFile fs p = .ok .empty := by
  rw [loadFile, h, ofOpened, ofBroken_nil]

theorem loadFile_eq_ok_iff_get {t : Table} :
    loadFile fs p = .ok t ↔
      (∃ content, fs.get p = .ok (.file content) ∧ load content = .ok t) ∨
        fs.get p = .ok .directory ∧ t = .empty := by
  rcases hget : fs.get p with fault | _ | content
  · simp [loadFile_of_get_error hget]
  · simp [loadFile_of_directory hget, eq_comm]
  · simp [loadFile_of_get hget, mapError_eq_ok_iff]

theorem loadFile_eq_fileNotFound_iff {q : Path} :
    loadFile fs p = .error (.fileNotFound q) ↔ q = p ∧ fs.CannotOpen p (.os .notFound) := by
  rw [← FileSystem.get_eq_error_iff]
  rcases hget : fs.get p with fault | _ | content
  · by_cases hfault : fault = .os .notFound
    · simp [loadFile_of_get_error hget, hfault, eq_comm]
    · simp [loadFile_of_get_error hget, hfault]
  · simp [loadFile_of_directory hget]
  · simp [loadFile_of_get hget, mapError_eq_error_iff, Rejection.fault]

theorem loadFile_eq_io_iff :
    loadFile fs p = .error (.io fault) ↔ fault ≠ .os .notFound ∧ fs.CannotOpen p fault := by
  rw [← FileSystem.get_eq_error_iff]
  rcases hget : fs.get p with other | _ | content
  · by_cases hother : other = .os .notFound
    · simp [loadFile_of_get_error hget, hother, eq_comm]
    · simp only [loadFile_of_get_error hget, if_neg hother, Except.error.injEq, Fault.io.injEq]
      exact ⟨fun h => ⟨h ▸ hother, h⟩, fun h => h.2⟩
  · simp [loadFile_of_directory hget]
  · simp [loadFile_of_get hget, mapError_eq_error_iff, Rejection.fault]

end Table

/-! ## Main result -/

namespace Run

open Utf8 (encode)

/-- Nothing loads but files that have been read to their end, and directories, as tables without
runs. A path that cannot be opened is reported as missing or by its fault, and a run on it changes
nothing; a run on a directory writes a chart without curves. Wherever reading a file fails, the
fault is missed exactly if it comes before the end of the first record. -/
theorem readFailures_spec (fs : FileSystem) (p : Path) :
    (∀ t, Table.loadFile fs p = .ok t ↔
      (∃ content, fs.get p = .ok (.file content) ∧ Table.load content = .ok t) ∨
        fs.get p = .ok .directory ∧ t = .empty) ∧
    (∀ q, Table.loadFile fs p = .error (.fileNotFound q) ↔
      q = p ∧ fs.CannotOpen p (.os .notFound)) ∧
    (∀ fault, Table.loadFile fs p = .error (.io fault) ↔
      fault ≠ .os .notFound ∧ fs.CannotOpen p fault) ∧
    (∀ setting config s, config.input = p → s.files = fs →
      (∀ fault, fs.CannotOpen p fault → ∃ e, run setting config s = ⟨.error e, s⟩) ∧
      (fs.get p = .ok .directory →
        ∀ made mode document after, fs.makeDirectories config.outputDirectory = ⟨made, none⟩ →
          config.mode.select? s.input = some mode →
          (ChartData.ofFile p .empty mode).document config.size = .ok document →
          made.write (config.chartPath setting.temporary) (encode document) = .ok after →
          (run setting config s).result = .ok (config.chartPath setting.temporary) ∧
            (run setting config s).state.files = after)) ∧
    ∀ bytes fault,
      (∀ t, Table.ofBroken bytes fault = .ok t ↔ Csv.endedRecords bytes = [] ∧ t = .empty) ∧
      ∀ first rest, Csv.endedRecords bytes = first :: rest → ∀ e,
        (Table.ofBroken bytes fault = .error e ↔
          (∃ rejection, Load.readRecords 1 rest = .error rejection ∧ e = rejection.fault) ∨
            (∃ runs, Load.readRecords 1 rest = .ok runs) ∧ e = .io fault) := by
  refine ⟨fun _ => Table.loadFile_eq_ok_iff_get, fun _ => Table.loadFile_eq_fileNotFound_iff,
    fun _ => Table.loadFile_eq_io_iff, ?_, fun _ _ => ⟨fun _ => Table.ofBroken_eq_ok_iff,
      fun _ _ hended _ => Table.ofBroken_eq_error_iff hended⟩⟩
  rintro setting config s rfl rfl
  constructor
  · intro fault hfault
    have hload := Table.loadFile_of_get_error (FileSystem.get_eq_error_iff.mpr hfault)
    exact ⟨_, run_of_notLoaded hload⟩
  · intro hget made mode document after hmake hselect hdraw hwrite
    exact (Ends.written (Table.loadFile_of_directory hget) hmake hselect hdraw hwrite).execution

/-- An empty file and a directory. -/
def fileAndDirectory : FileSystem :=
  ⟨[([encode "f".toList], .file []), ([encode "d".toList], .directory)], [], []⟩

/-- A chart is made of the directory. A missing file and one below a file are reported, and so is a
fault that comes behind two records. -/
theorem readFailures_spec_fileAndDirectory :
    let config (p : Path) : Config := ⟨p, .given none, .ofString "d", true, ⟨800, 400⟩⟩
    let setting : Setting := ⟨.ofString "d", none⟩
    let s : State := ⟨fileAndDirectory, [], "", []⟩
    Table.loadFile fileAndDirectory (.ofString "d") = .ok .empty ∧
    (∃ document, (run setting (config (.ofString "d")) s).result = .ok (.ofString "d/d.svg") ∧
      (run setting (config (.ofString "d")) s).state.files =
        fileAndDirectory.put [encode "d".toList, encode "d.svg".toList] (.file document)) ∧
    Table.loadFile fileAndDirectory (.ofString "m") = .error (.fileNotFound (.ofString "m")) ∧
    (∃ e, run setting (config (.ofString "m")) s = ⟨.error e, s⟩) ∧
    Table.loadFile fileAndDirectory (.ofString "f/m") = .error (.io (.os .notADirectory)) ∧
    (∃ e, run setting (config (.ofString "f/m")) s = ⟨.error e, s⟩) ∧
    Table.ofBroken (encode "h\n1,2,3,4,5,6,7,8\n1".toList) (.os .isADirectory) =
      .error (.io (.os .isADirectory)) := by
  intro config setting s
  have hdirectory : fileAndDirectory.get (.ofString "d") = .ok .directory := by decide
  have habsent : fileAndDirectory.CannotOpen (.ofString "m") (.os .notFound) :=
    FileSystem.get_eq_error_iff.mp (by decide)
  have hbelow : fileAndDirectory.CannotOpen (.ofString "f/m") (.os .notADirectory) :=
    FileSystem.get_eq_error_iff.mp (by decide)
  have hchart : (config (.ofString "d")).chartPath setting.temporary = .ofString "d/d.svg" := by
    decide
  have hmake : fileAndDirectory.makeDirectories (.ofString "d") = ⟨fileAndDirectory, none⟩ := rfl
  have hwrite : ∀ content, fileAndDirectory.write (.ofString "d/d.svg") content =
      .ok (fileAndDirectory.put [encode "d".toList, encode "d.svg".toList] (.file content)) :=
    fun _ => rfl
  obtain ⟨document, hdraw⟩ : ∃ document,
      (ChartData.ofFile (.ofString "d") .empty none).document ⟨800, 400⟩ = .ok document := by
    have hsome : ((ChartData.ofFile (.ofString "d") .empty none).draw? ⟨800, 400⟩).isSome := by
      decide +kernel
    obtain ⟨drawing, hdrawing⟩ := Option.isSome_iff_exists.mp hsome
    exact ⟨drawing.svg, by rw [ChartData.document, hdrawing]⟩
  obtain ⟨hloads, -, -, hruns, -⟩ := readFailures_spec fileAndDirectory (.ofString "d")
  obtain ⟨-, hmissing, -, hmissingRuns, -⟩ := readFailures_spec fileAndDirectory (.ofString "m")
  obtain ⟨-, -, hio, hioRuns, hbroken⟩ := readFailures_spec fileAndDirectory (.ofString "f/m")
  refine ⟨(hloads _).mpr (.inr ⟨hdirectory, rfl⟩), ⟨encode document, ?_⟩,
    (hmissing _).mpr ⟨rfl, habsent⟩, (hmissingRuns _ _ _ rfl rfl).1 _ habsent,
    (hio _).mpr ⟨by decide, hbelow⟩, (hioRuns _ _ _ rfl rfl).1 _ hbelow, ?_⟩
  · exact (hruns setting (config (.ofString "d")) s rfl rfl).2 hdirectory fileAndDirectory none
      document _ hmake rfl hdraw (hchart ▸ hwrite _)
  · exact ((hbroken _ _).2 ⟨[[0x68]], 0, 0⟩ _ rfl _).mpr (.inr ⟨⟨_, rfl⟩, rfl⟩)

end Run

end TimingChart
