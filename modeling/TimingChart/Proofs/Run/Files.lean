import TimingChart.Proofs.Run.Endings

/-! # What a run leaves behind

A run that fails leaves all files as they were. One that succeeds has written the chart and nothing
else, so that it can be repeated with the same outcome. -/

namespace TimingChart

open Utf8 (encode)

/-! ## The chart and the input -/

theorem slash_not_mem_chartName (input : Path) : Path.slash ∉ chartName input := by
  rw [chartName, List.mem_append, not_or]
  refine ⟨?_, by decide⟩
  cases hname : input.fileName? with
  | none => decide
  | some name => exact Path.slash_not_mem_of_fileName? hname

theorem chartName_ne {input : Path} {name : Bytes} (h : input.fileName? = some name) :
    chartName input ≠ name := by
  rw [chartName, h, Option.getD_some]
  intro heq
  have hlength := congrArg List.length heq
  rw [List.length_append, show (encode ".svg".toList).length = 4 by decide] at hlength
  omega

theorem Config.getLast?_parts_chartPath (config : Config) (temporary : Path) :
    (config.chartPath temporary).parts.getLast? = some (chartName config.input) :=
  Path.getLast?_parts_child _ (slash_not_mem_chartName config.input)

theorem Table.exists_get_of_loadFile {fs : FileSystem} {p : Path} {t : Table}
    (h : loadFile fs p = .ok t) : ∃ e, fs.get p = .ok e := by
  rw [loadFile] at h
  cases hget : fs.get p with
  | ok e => exact ⟨e, rfl⟩
  | error fault =>
      rw [hget] at h
      unfold ofOpened at h
      split at h <;> simp_all

namespace Run

variable {setting : Setting} {config : Config} {before made after : FileSystem}

/-- The chart has another name than an input that is a file, and it does not take the place of an
input that is a directory. -/
theorem input_ne_chart (tree : FileSystem.Tree) (hext : tree.Extends made) {content : Bytes}
    {l chart : Location} {e : Entry} (hfind : tree.find config.input = .ok l)
    (he : tree.entry? l = some e)
    (hwrites : made.Writes after (config.chartPath setting.temporary) content chart) :
    l ≠ chart := by
  rintro rfl
  cases e with
  | directory => exact hwrites.not_directory (hext.directory l he)
  | file content =>
      -- both locations end with the last name on the way to them
      obtain ⟨-, hwalks⟩ := FileSystem.find_eq_ok_iff.mp hfind
      obtain ⟨name, hparts, hname, hlast⟩ :=
        tree.getLast?_eq hwalks (Path.splitSlashes_ne_nil _) he
      obtain ⟨hempty, hhere, habove⟩ := FileSystem.isName_iff.mp hname
      have hinput := Path.fileName?_of_getLast? hparts hempty hhere habove
      have hchart := hwrites.getLast?_eq
      rw [config.getLast?_parts_chartPath, hlast] at hchart
      exact chartName_ne hinput (Option.some.inj hchart).symm

/-! ## Any plan -/

/-- Whatever a plan does, nothing disappears, no directory is replaced, and a tree stays a tree. -/
theorem extends_perform (setting : Setting) (plan : Plan) (s : State) :
    s.files.Extends (perform setting plan s).state.files ∧
      (s.files.IsTree → (perform setting plan s).state.files.IsTree) := by
  induction plan generalizing s with
  | done => exact ⟨.refl _, id⟩
  | report entries next ih => exact ih { s with log := s.log ++ entries }
  | read path next ih => exact ih (s.files.get path) s
  | makeDirectories path next ih =>
      have hmakes := FileSystem.makes_makeDirectories (rfl : s.files.makeDirectories path = _)
      obtain ⟨hext, htree⟩ := ih (s.files.makeDirectories path).fault
        { s with files := (s.files.makeDirectories path).files }
      exact ⟨hmakes.makesOnly.to_extends.trans hext, htree ∘ hmakes.isTree⟩
  | ask prompt next ih =>
      exact ih (Prompt.splitLine s.input).1
        { s with input := (Prompt.splitLine s.input).2, output := s.output ++ prompt }
  | write path content next ih =>
      rw [perform]
      split
      · exact ih _ s
      · next files hwrite =>
        obtain ⟨l, hwrites⟩ := FileSystem.writes_of_write hwrite
        obtain ⟨hext, htree⟩ := ih none { s with files }
        exact ⟨hwrites.to_extends.trans hext, htree ∘ hwrites.isTree⟩
  | view path next ih => exact ih _ s

/-- What is said of runs in a tree holds for the next run as well. -/
theorem isTree_run (setting : Setting) (config : Config) (tree : FileSystem.Tree) (input : Bytes)
    (output : String) (log : Log) :
    (run setting config ⟨tree.toFileSystem, input, output, log⟩).state.files.IsTree :=
  (extends_perform setting (config.plan setting.temporary) _).2 tree.isTree

/-! ## Runs that succeed -/

/-- A run has written this document to this path. -/
structure HasWritten (setting : Setting) (config : Config) (before : FileSystem) (input : Bytes)
    (path : Path) (document : List Char) (after : FileSystem) : Prop where
  path_eq : path =
    (if config.save then config.outputDirectory else setting.temporary).child
      (chartName config.input)
  document_eq : ∃ t mode, Table.loadFile before config.input = .ok t ∧
    config.mode.select? input = some mode ∧
    (ChartData.ofTable t mode ("file = " ++ config.input.display)).document config.size =
      .ok document
  isDirectory : config.outputDirectory.isEmpty ∨ after.isDirectory config.outputDirectory
  get_eq : after.get path = .ok (.file (encode document))
  /-- all but the chart is as it was, or a directory in a gap on the way to the output directory -/
  others : ∃ l, after.find path = .ok l ∧ before.entry? l ≠ some .directory ∧
    ∀ l' ≠ l, after.entry? l' = before.entry? l' ∨
      before.entry? l' = none ∧ after.entry? l' = some .directory ∧
        ∃ p ∈ config.outputDirectory.ancestors, after.find p = .ok l'
  input_eq : after.get config.input = before.get config.input

/-- The last ending of a run, with all that it says about the files. -/
theorem hasWritten_of_steps (tree : FileSystem.Tree) {input : Bytes} {t : Table}
    {mode : Option Mode} {document : List Char}
    (hload : Table.loadFile tree.toFileSystem config.input = .ok t)
    (hmake : tree.makeDirectories config.outputDirectory = ⟨made, none⟩)
    (hselect : config.mode.select? input = some mode)
    (hdraw : (ChartData.ofFile config.input t mode).document config.size = .ok document)
    (hwrite : made.write (config.chartPath setting.temporary) (encode document) = .ok after) :
    HasWritten setting config tree.toFileSystem input (config.chartPath setting.temporary) document
      after := by
  have hmakes := FileSystem.makes_makeDirectories hmake
  obtain ⟨l, hwrites⟩ := FileSystem.writes_of_write hwrite
  have hext := hmakes.makesOnly.to_extends
  refine ⟨rfl, ⟨t, mode, hload, hselect, hdraw⟩, ?_, hwrites.get_eq,
    ⟨l, hwrites.find_eq, ?_, ?_⟩, ?_⟩
  · exact (hmakes.isDirectory rfl _ rfl).imp_right hwrites.to_extends.isDirectory
  · exact fun hl => hwrites.not_directory (hext.directory l hl)
  · intro l' hl'
    rw [hwrites.entry?_of_ne l' hl']
    rcases hmakes.makesOnly.entry? l' with heq | ⟨hnone, hmade, p, hp, hfind⟩
    · exact .inl heq
    · exact .inr ⟨hnone, hmade, p, hp, hwrites.to_extends.find_eq hfind⟩
  · obtain ⟨e, hget⟩ := Table.exists_get_of_loadFile hload
    obtain ⟨l', hfind, hopen, he⟩ := FileSystem.get_eq_ok_iff.mp hget
    have hne := input_ne_chart tree hext hfind he hwrites
    have hafter := hext.trans hwrites.to_extends
    rw [hget]
    refine FileSystem.get_eq_ok_iff.mpr ⟨l', hafter.find_eq hfind, hafter.closed_eq ▸ hopen, ?_⟩
    rw [hwrites.entry?_of_ne l' hne]
    rcases hmakes.makesOnly.entry? l' with heq | ⟨hnone, -⟩
    · exact heq.trans he
    · rw [hnone] at he
      cases he

/-- A run can be repeated, and the second one leaves everything as the first one did. -/
theorem HasWritten.run_again {input : Bytes} {document : List Char}
    (h : HasWritten setting config before input (config.chartPath setting.temporary) document after)
    (hwrite : made.write (config.chartPath setting.temporary) (encode document) = .ok after)
    {again : State} (hfiles : again.files = after) (hinput : again.input = input) :
    (run setting config again).result = .ok (config.chartPath setting.temporary) ∧
      (run setting config again).state.files.get (config.chartPath setting.temporary) =
        .ok (.file (encode document)) ∧
      ∀ l, FileSystem.entry? (run setting config again).state.files l = after.entry? l := by
  obtain ⟨t, mode, hload, hselect, hdraw⟩ := h.document_eq
  subst hfiles hinput
  rw [Table.loadFile, ← h.input_eq] at hload
  obtain ⟨files, hagain, hentries⟩ := FileSystem.write_again hwrite
  have hends : Ends setting config again.files again.input
      (.ok (config.chartPath setting.temporary)) files :=
    .written hload (FileSystem.makeDirectories_of_isDirectory h.isDirectory) hselect hdraw hagain
  obtain ⟨hresult, hleft⟩ := hends.execution
  obtain ⟨l, hwrites⟩ := FileSystem.writes_of_write hagain
  rw [hleft]
  exact ⟨hresult, hwrites.get_eq, hentries⟩

/-- Runs are all or nothing. If the input cannot be loaded, no file or directory changes at all.
If a run fails, at most directories on the way to the output directory have been made. If it
succeeds, the output directory is there, the chart is at its path, the input and all other files are
as before, and running once more gives the same. -/
theorem run_allOrNothing (setting : Setting) (config : Config) (tree : FileSystem.Tree)
    (input : Bytes) (output : String) (log : Log) :
    let o := run setting config ⟨tree.toFileSystem, input, output, log⟩
    (∀ fault, Table.loadFile tree.toFileSystem config.input = .error fault →
      o.result = .error fault ∧ o.state.files = tree.toFileSystem) ∧
    (∀ fault, o.result = .error fault →
      tree.MakesOnly o.state.files config.outputDirectory.ancestors) ∧
    ∀ path, o.result = .ok path → ∃ document,
      HasWritten setting config tree.toFileSystem input path document o.state.files ∧
      ∀ again : State, again.files = o.state.files → again.input = input →
        (run setting config again).result = .ok path ∧
        (run setting config again).state.files.get path = .ok (.file (encode document)) ∧
        ∀ l, FileSystem.entry? (run setting config again).state.files l =
          o.state.files.entry? l := by
  intro o
  have hends : Ends setting config tree.toFileSystem input o.result o.state.files :=
    ends_run setting config ⟨tree.toFileSystem, input, output, log⟩
  refine ⟨?_, ?_, ?_⟩
  · intro fault hload
    have hrun : o = ⟨.error fault, ⟨tree.toFileSystem, input, output, log⟩⟩ :=
      run_of_notLoaded hload
    rw [hrun]
    exact ⟨rfl, rfl⟩
  · intro fault hfault
    rw [hfault] at hends
    generalize o.state.files = after at hends
    cases hends with
    | notLoaded => exact .refl _ _
    | notMade _ hmake | notSelected _ hmake | notDrawn _ hmake | notWritten _ hmake =>
        exact (FileSystem.makes_makeDirectories hmake).makesOnly
  · intro path hpath
    rw [hpath] at hends
    generalize o.state.files = after at hends
    cases hends with
    | @written _ made _ document _ hload hmake hselect hdraw hwrite =>
        have h := hasWritten_of_steps tree hload hmake hselect hdraw hwrite
        exact ⟨document, h, fun again hfiles hinput => h.run_again hwrite hfiles hinput⟩

/-! ## Two runs -/

/-- A file with one run of the benchmark in the current directory. -/
def oneTree : FileSystem.Tree :=
  (FileSystem.Tree.blank [encode "work".toList]).withFile (.ofString "bench.csv")
    (encode "h\n1,2,3,4,5,6,7,8\n".toList)

def oneFile : FileSystem := oneTree.toFileSystem

/-- A chart in a directory that is made for it. -/
theorem run_allOrNothing_newDirectory :
    let setting : Setting := ⟨.ofString "/tmp", none⟩
    let config : Config :=
      ⟨.ofString "bench.csv", .prompt, .ofString "new/charts", true, ⟨800, 400⟩⟩
    let o := run setting config ⟨oneTree.toFileSystem, encode "1\n".toList, "", []⟩
    o.result = .ok (.ofString "new/charts/bench.csv.svg") ∧
      o.state.files.isDirectory (.ofString "new/charts") ∧
      ∃ document, o.state.files.get (.ofString "new/charts/bench.csv.svg") =
          .ok (.file (encode document)) ∧
        ∀ again : State, again.files = o.state.files → again.input = encode "1\n".toList →
          (run setting config again).state.files.get (.ofString "new/charts/bench.csv.svg") =
            .ok (.file (encode document)) := by
  intro setting config
  have hresult : (run setting config ⟨oneTree.toFileSystem, encode "1\n".toList, "", []⟩).result =
      .ok (.ofString "new/charts/bench.csv.svg") := by
    decide +kernel
  have hspec := run_allOrNothing setting config oneTree (encode "1\n".toList) "" []
  -- the rest is about any such outcome
  generalize run setting config ⟨oneTree.toFileSystem, encode "1\n".toList, "", []⟩ = o
    at hresult hspec ⊢
  obtain ⟨document, hwritten, hagain⟩ := hspec.2.2 _ hresult
  have hdirectory := hwritten.isDirectory.resolve_left (by decide)
  exact ⟨hresult, hdirectory, document, hwritten.get_eq, fun again hfiles hinput =>
    (hagain again hfiles hinput).2.1⟩

/-- The empty path needs no directory, and it leads to none. -/
theorem not_isDirectory_of_emptyOutputDirectory :
    let config : Config := ⟨.ofString "bench.csv", .given none, ⟨[]⟩, true, ⟨800, 400⟩⟩
    let o := run ⟨.ofString "tmp", none⟩ config ⟨oneTree.toFileSystem, [], "", []⟩
    o.result = .ok (.ofString "bench.csv.svg") ∧
      ¬ o.state.files.isDirectory config.outputDirectory := by
  decide +kernel

end Run

end TimingChart
