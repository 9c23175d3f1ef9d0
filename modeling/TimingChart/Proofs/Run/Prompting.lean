import TimingChart.Proofs.CommandLine.Configuring
import TimingChart.Proofs.Run.Files
import TimingChart.Proofs.Text.Trimming

/-! # Answering a prompt

A mode that is asked for on the command line and one that is the answer to the prompt lead to the
same run. The prompt takes the line with the answer from the input and leaves what is behind it. -/

namespace TimingChart

open Utf8 (encode)

/-! ## One line of input -/

theorem lineFeed_not_mem_encodeChar {c : Char} (hc : c ≠ '\n') :
    (0x0A : UInt8) ∉ String.utf8EncodeChar c := by
  have hvalue : c.val.toNat ≠ 0x0A := by
    intro hval
    exact hc (Char.toNat_inj.mp hval)
  intro hmem
  rw [String.utf8EncodeChar] at hmem
  generalize c.val.toNat = v at hmem hvalue
  have hbyte : ∀ n, (0x0A : UInt8) = UInt8.ofNat n → n % 256 = 0x0A := by
    intro n hn
    exact (congrArg UInt8.toNat hn).symm
  -- all bytes but that of an ASCII character are large
  split at hmem
  · have h := hbyte v (List.mem_singleton.mp hmem)
    omega
  · split at hmem
    · simp only [List.mem_cons, List.not_mem_nil, or_false] at hmem
      rcases hmem with h | h <;> have h := hbyte _ h <;> omega
    · split at hmem
      · simp only [List.mem_cons, List.not_mem_nil, or_false] at hmem
        rcases hmem with h | h | h <;> have h := hbyte _ h <;> omega
      · simp only [List.mem_cons, List.not_mem_nil, or_false] at hmem
        rcases hmem with h | h | h | h <;> have h := hbyte _ h <;> omega

theorem lineFeed_not_mem_encode {text : List Char} (h : '\n' ∉ text) :
    (0x0A : UInt8) ∉ encode text := by
  intro hmem
  obtain ⟨c, hc, hbyte⟩ := List.mem_flatMap.mp hmem
  refine lineFeed_not_mem_encodeChar ?_ hbyte
  rintro rfl
  exact h hc

namespace Prompt

/-- A line ends at the first line feed. -/
theorem splitLine_append {line : Bytes} (h : (0x0A : UInt8) ∉ line) (rest : Bytes) :
    splitLine (line ++ 0x0A :: rest) = (line ++ [0x0A], rest) := by
  induction line with
  | nil => rfl
  | cons b line ih =>
      rw [List.mem_cons, not_or] at h
      rw [List.cons_append, splitLine, if_neg (Ne.symm h.1), ih h.2]
      rfl

/-- The line feed behind an answer makes no difference to what it selects. -/
theorem parse_concat_lineFeed (answer : List Char) :
    Selection.parse (answer ++ ['\n']) = Selection.parse answer := by
  have htrim : Blank.trimBy Blank.isBlank (answer ++ ['\n']) = Blank.trimBy Blank.isBlank answer :=
    Blank.trimBy_append (by decide) answer
  rw [Selection.parse, Selection.parse, htrim]

theorem answer?_encode (answer : List Char) :
    answer? (encode answer ++ [0x0A]) = some (Selection.parse answer) := by
  have hdecode : Utf8.decode? (encode answer ++ [0x0A]) = some (answer ++ ['\n']) := by
    rw [Utf8.decode?_append_ascii (by decide), Utf8.decode?_encode]
    rfl
  rw [answer?, hdecode, Option.map_some, parse_concat_lineFeed]

end Prompt

/-! ## The input of a run -/

/-- The input that is left once the mode is known. -/
def ModeSource.leaves (source : ModeSource) (input : Bytes) : Bytes :=
  match source with
  | .given _ => input
  | .prompt => (Prompt.splitLine input).2

/-- The steps before the prompt succeed: the input is loaded and the output directory is there. -/
def Config.Reaches (config : Config) (files : FileSystem) : Prop :=
  (∃ t, Table.loadFile files config.input = .ok t) ∧
    (files.makeDirectories config.outputDirectory).fault = none

namespace Run

variable {setting : Setting} {config : Config} {s : State}

theorem input_present (setting : Setting) (save : Bool) (path : Path) (s : State) :
    (perform setting (.present save path) s).state.input = s.input := by
  cases save <;> rfl

theorem input_draw (setting : Setting) (data : ChartData) (size : Size) (save : Bool) (path : Path)
    (s : State) : (perform setting (.draw data size save path) s).state.input = s.input := by
  rw [Plan.draw]
  split
  · rfl
  · rw [perform]
    split
    · rfl
    · exact input_present setting save path _

/-- A run that comes to the prompt takes one line, and leaves what is behind it. -/
theorem input_run_of_reaches (h : config.Reaches s.files) :
    (run setting config s).state.input = config.mode.leaves s.input := by
  obtain ⟨⟨t, hload⟩, hmake⟩ := h
  rw [Table.loadFile] at hload
  simp only [run, Config.plan, perform, hload, hmake, Plan.proceed]
  cases config.mode with
  | given mode => exact input_draw ..
  | prompt =>
      simp only [Plan.withMode, perform]
      cases Prompt.answer? (Prompt.splitLine s.input).1 with
      | none => rfl
      | some selection => exact input_draw ..

/-- A run that fails before takes nothing. -/
theorem input_run_of_not_reaches (h : ¬ config.Reaches s.files) :
    (run setting config s).state.input = s.input := by
  cases hload : Table.loadFile s.files config.input with
  | error fault => rw [run_of_notLoaded hload]
  | ok t =>
      cases hmake : (s.files.makeDirectories config.outputDirectory).fault with
      | none => exact absurd ⟨⟨t, hload⟩, hmake⟩ h
      | some fault =>
          rw [Table.loadFile] at hload
          simp only [run, Config.plan, perform, hload, hmake]
          rfl

/-- A run with a mode takes nothing either. -/
theorem input_run_of_given {mode : Option Mode} (hmode : config.mode = .given mode) :
    (run setting config s).state.input = s.input := by
  by_cases h : config.Reaches s.files
  · rw [input_run_of_reaches h, hmode, ModeSource.leaves]
  · exact input_run_of_not_reaches h

/-! ## Runs that differ in where the mode comes from -/

theorem Ends.of_select {files : FileSystem} {input input' : Bytes} {result : Except Fault Path}
    {after : FileSystem} {source : ModeSource}
    (hselect : source.select? input' = config.mode.select? input)
    (h : Ends setting config files input result after) :
    Ends setting { config with mode := source } files input' result after := by
  cases h with
  | notLoaded hload => exact .notLoaded hload
  | notMade hload hmake => exact .notMade hload hmake
  | notSelected hload hmake hnone => exact .notSelected hload hmake (hselect.trans hnone)
  | notDrawn hload hmake hmode hdraw => exact .notDrawn hload hmake (hselect.trans hmode) hdraw
  | notWritten hload hmake hmode hdraw hwrite =>
      exact .notWritten hload hmake (hselect.trans hmode) hdraw hwrite
  | written hload hmake hmode hdraw hwrite =>
      exact .written hload hmake (hselect.trans hmode) hdraw hwrite

/-- Two runs that select the same mode have the same result and leave the same files. -/
theorem run_eq_of_select (setting : Setting) (config : Config) (source : ModeSource) {s s' : State}
    (hfiles : s'.files = s.files)
    (hselect : source.select? s'.input = config.mode.select? s.input) :
    (run setting config s).result = (run setting { config with mode := source } s').result ∧
      (run setting config s).state.files =
        (run setting { config with mode := source } s').state.files := by
  have hends := (ends_run setting config s).of_select hselect
  rw [← hfiles] at hends
  obtain ⟨hresult, hafter⟩ := hends.execution
  exact ⟨hresult.symm, hafter.symm⟩

/-! ## Main result -/

section Answer

open CommandLine

theorem parse_of_holds {program : Bytes} {r : Request} {words : List Bytes} {w : Words}
    (hread : (Words.start (calledAs program)).readAll words = .ok w) (hholds : w.Holds r.parts) :
    parse (program :: words) = ⟨.ok r.config, r.log⟩ := by
  simp only [parse, List.headD_cons, List.drop_succ_cons, List.drop_zero, hread,
    hholds.refusal?_eq_none, hholds.configure_eq]

/-- A mode that is attached to its option can be put in front of all other words. -/
theorem isWritten_mode {r : Request} {answer : List Char} {words : List (List Char)}
    (hmode : r.mode = none) (hwords : r.IsWritten words) (hanswer : IsAttachable answer) :
    Request.IsWritten { r with mode := some answer } (("--mode=".toList ++ answer) :: words) := by
  have hword : Part.IsWritten (.option .mode rfl answer) ["--mode=".toList ++ answer] :=
    .option _ _ _ _ (.long hanswer)
  have hoptions : Request.options { r with mode := some answer } =
      .option .mode rfl answer :: r.options := by
    have hnone : r.part? .mode = none := by
      rw [Request.part?_of_takesValue rfl, Request.value?, hmode, Option.map_none]
    have hothers : ∀ key ∈ [Key.outputDirectory, .save, .width, .height],
        Request.part? { r with mode := some answer } key = r.part? key := by
      intro key hkey
      cases key with
      | mode => simp at hkey
      | outputDirectory | save | width | height => rfl
    rw [Request.options, Request.options, Key.all, List.filterMap_cons_none hnone,
      ← List.filterMap_congr hothers]
    rfl
  cases hwords with
  | anywhere parts groups hparts hgroups =>
      refine .anywhere (.option .mode rfl answer :: parts) (_ :: groups) ?_ (.cons hword hgroups)
      rw [Request.parts, hoptions]
      exact (hparts.cons _).trans (.swap ..)
  | last options groups hperm hgroups =>
      refine .last (.option .mode rfl answer :: options) (_ :: groups) ?_ (.cons hword hgroups)
      rw [hoptions]
      exact hperm.cons _

/-- A mode on the command line and the same mode as the answer to the prompt lead to the same mode,
result and files. The prompt takes the answer and its line feed from the input, if the run comes to
it, and nothing otherwise. -/
theorem run_answer (program : Bytes) {r : Request} {answer : List Char}
    {words words' : List (List Char)} (hmode : r.mode = none) (hwords : r.IsWritten words)
    (hwords' : Request.IsWritten { r with mode := some answer } words') (hline : '\n' ∉ answer) :
    let given := { r.config with mode := .given (Selection.parse answer).mode }
    (IsAttachable answer →
      Request.IsWritten { r with mode := some answer } (("--mode=".toList ++ answer) :: words)) ∧
    parse (program :: words.map encode) = ⟨.ok r.config, []⟩ ∧ r.config.mode = .prompt ∧
    parse (program :: words'.map encode) = ⟨.ok given, (Selection.parse answer).log⟩ ∧
    ∀ (setting : Setting) (s s' : State) (rest : Bytes), s'.files = s.files →
      s.input = encode answer ++ 0x0A :: rest →
      r.config.mode.select? s.input = some (Selection.parse answer).mode ∧
      (run setting r.config s).result = (run setting given s').result ∧
      (run setting r.config s).state.files = (run setting given s').state.files ∧
      (r.config.Reaches s.files → (run setting r.config s).state.input = rest) ∧
      (¬ r.config.Reaches s.files → (run setting r.config s).state.input = s.input) ∧
      (run setting given s').state.input = s'.input := by
  obtain ⟨w, hread, hholds⟩ := hwords.readAll_start (calledAs program)
  obtain ⟨w', hread', hholds'⟩ := hwords'.readAll_start (calledAs program)
  have hsource : r.config.mode = .prompt := by
    rw [Request.config, hmode]
  have hlog : r.log = [] := by
    rw [Request.log, hmode]
  refine ⟨isWritten_mode hmode hwords, ?_, hsource, ?_, ?_⟩
  · rw [← hlog]
    exact parse_of_holds hread hholds
  · exact parse_of_holds hread' hholds'
  · intro setting s s' rest hfiles hinput
    have hsplit : Prompt.splitLine s.input = (encode answer ++ [0x0A], rest) := by
      rw [hinput, Prompt.splitLine_append (lineFeed_not_mem_encode hline)]
    have hselect : r.config.mode.select? s.input = some (Selection.parse answer).mode := by
      rw [hsource, ModeSource.select?, hsplit, Prompt.answer?_encode]
      rfl
    obtain ⟨hresult, hafter⟩ := run_eq_of_select setting r.config
      (.given (Selection.parse answer).mode) hfiles hselect.symm
    refine ⟨hselect, hresult, hafter, ?_, input_run_of_not_reaches, input_run_of_given rfl⟩
    intro hreaches
    rw [input_run_of_reaches hreaches, hsource, ModeSource.leaves, hsplit]

/-- An answer with blanks around it, and some more input. -/
theorem run_answer_blanksAround :
    let words := ["bench.csv", "-s", "-d", "new"].map fun word => encode word.toList
    let prompting : Config := ⟨.ofString "bench.csv", .prompt, .ofString "new", true, ⟨1600, 800⟩⟩
    let given : Config := { prompting with mode := .given (some .cols1) }
    let s : State := ⟨oneFile, encode " 2\r\nmore".toList, "", []⟩
    parse ([] :: words) = ⟨.ok prompting, []⟩ ∧
      parse ([] :: encode "--mode= 2\r".toList :: words) = ⟨.ok given, []⟩ ∧
      prompting.Reaches oneFile ∧ ∀ setting,
        (run setting prompting s).result = (run setting given s).result ∧
        (run setting prompting s).state.files = (run setting given s).state.files ∧
        (run setting prompting s).state.input = encode "more".toList := by
  intro words prompting given s
  let r : Request := {
    input := "bench.csv".toList, mode := none, outputDirectory := some "new".toList, save := true
    width := none, height := none }
  have hwords : r.IsWritten (["bench.csv", "-s", "-d", "new"].map String.toList) := by
    refine .anywhere [.input "bench.csv".toList, .save, .option .outputDirectory rfl "new".toList]
      [["bench.csv".toList], ["-s".toList], ["-d".toList, "new".toList]] (by decide) ?_
    refine .cons ?_ (.cons ?_ (.cons ?_ .nil))
    · exact .input _ (by decide)
    · exact .save _ (.short 's' rfl)
    · exact .option _ _ _ _ (.separate _ (.short 'd' rfl) (by decide))
  have hwords' : Request.IsWritten { r with mode := some " 2\r".toList } _ :=
    isWritten_mode rfl hwords (by decide)
  have hspec := run_answer [] rfl hwords hwords' (by decide)
  have hprompting : r.config = prompting := by decide
  have hselected : Selection.parse " 2\r".toList = ⟨some .cols1, []⟩ := by decide
  have hreaches : prompting.Reaches oneFile := by
    have hload : (Table.loadFile oneFile prompting.input).toOption.isSome := by decide +kernel
    refine ⟨?_, by decide⟩
    cases hloaded : Table.loadFile oneFile prompting.input with
    | ok t => exact ⟨t, rfl⟩
    | error fault =>
        rw [hloaded] at hload
        cases hload
  have hmodes : ({ prompting with mode := .given (some .cols1) } : Config) = given := rfl
  rw [hprompting, hselected] at hspec
  dsimp only at hspec
  rw [hmodes] at hspec
  obtain ⟨-, hprompting, -, hgiven, hruns⟩ := hspec
  refine ⟨hprompting, hgiven, hreaches, ?_⟩
  intro setting
  obtain ⟨-, hresult, hfiles, hinput, -, -⟩ := hruns setting s s (encode "more".toList) rfl rfl
  exact ⟨hresult, hfiles, hinput hreaches⟩

/-- No input is taken where there is no prompt, as there is nothing to make a chart of. -/
theorem input_run_of_missingFile :
    let config : Config :=
      ⟨.ofString "missing.csv", .prompt, .ofString "./vector_api_test_plots/", false, ⟨1600, 800⟩⟩
    let s : State := ⟨oneFile, encode "3".toList ++ 0x0A :: encode "more".toList, "", []⟩
    parse [[], encode "missing.csv".toList] = ⟨.ok config, []⟩ ∧
      (run ⟨.ofString "/tmp", none⟩ config s).state.input ≠ encode "more".toList := by
  intro config s
  let r : Request := {
    input := "missing.csv".toList, mode := none, outputDirectory := none, save := false
    width := none, height := none }
  have hwords : r.IsWritten ["missing.csv".toList] :=
    .anywhere [.input "missing.csv".toList] [["missing.csv".toList]] (by decide)
      (.cons (.input _ (by decide)) .nil)
  obtain ⟨w, hread, hholds⟩ := hwords.readAll_start (calledAs [])
  have hconfig : r.config = config := by decide
  have hlog : r.log = [] := rfl
  rw [← hconfig, ← hlog]
  exact ⟨parse_of_holds hread hholds, by decide +kernel⟩

end Answer

end Run

end TimingChart
