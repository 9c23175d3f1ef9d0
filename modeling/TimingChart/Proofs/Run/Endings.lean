import TimingChart.Proofs.Files.Changes
import TimingChart.Run.State

/-! # What a run does to the files

A run changes files in two steps only: it makes directories before it asks for a mode, and at the
very end it writes the chart. It can end at each of its steps, and each end says what has changed by
then. -/

namespace TimingChart

open Utf8 (encode)

/-! ## How runs end -/

/-- The mode that is asked for, or the one that the first line of the input selects. There is none
if this line is no text. -/
def ModeSource.select? (source : ModeSource) (input : Bytes) : Option (Option Mode) :=
  match source with
  | .given mode => some mode
  | .prompt => (Prompt.answer? (Prompt.splitLine input).1).map Selection.Outcome.mode

namespace Run

/-- The first step that fails ends a run. The files are those from the beginning, those with the new
directories, or those with the chart. -/
inductive Ends (setting : Setting) (config : Config) (files : FileSystem) (input : Bytes) :
    Except Fault Path → FileSystem → Prop where
  | notLoaded {fault} (hload : Table.loadFile files config.input = .error fault) :
      Ends setting config files input (.error fault) files
  | notMade {t made fault} (hload : Table.loadFile files config.input = .ok t)
      (hmake : files.makeDirectories config.outputDirectory = ⟨made, some fault⟩) :
      Ends setting config files input (.error (.io fault)) made
  | notSelected {t made} (hload : Table.loadFile files config.input = .ok t)
      (hmake : files.makeDirectories config.outputDirectory = ⟨made, none⟩)
      (hselect : config.mode.select? input = none) :
      Ends setting config files input (.error (.io .notText)) made
  | notDrawn {t made mode fault} (hload : Table.loadFile files config.input = .ok t)
      (hmake : files.makeDirectories config.outputDirectory = ⟨made, none⟩)
      (hselect : config.mode.select? input = some mode)
      (hdraw : (ChartData.ofFile config.input t mode).document config.size = .error fault) :
      Ends setting config files input (.error fault) made
  | notWritten {t made mode document fault} (hload : Table.loadFile files config.input = .ok t)
      (hmake : files.makeDirectories config.outputDirectory = ⟨made, none⟩)
      (hselect : config.mode.select? input = some mode)
      (hdraw : (ChartData.ofFile config.input t mode).document config.size = .ok document)
      (hwrite : made.write (config.chartPath setting.temporary) (encode document) =
        .error fault) :
      Ends setting config files input (.error (.io fault)) made
  | written {t made mode document after} (hload : Table.loadFile files config.input = .ok t)
      (hmake : files.makeDirectories config.outputDirectory = ⟨made, none⟩)
      (hselect : config.mode.select? input = some mode)
      (hdraw : (ChartData.ofFile config.input t mode).document config.size = .ok document)
      (hwrite : made.write (config.chartPath setting.temporary) (encode document) = .ok after) :
      Ends setting config files input (.ok (config.chartPath setting.temporary)) after

variable {setting : Setting} {config : Config}

/-- One of the steps is the first that fails, or none is. -/
theorem exists_ends (setting : Setting) (config : Config) (files : FileSystem) (input : Bytes) :
    ∃ result after, Ends setting config files input result after := by
  cases hload : Table.loadFile files config.input with
  | error fault => exact ⟨_, _, .notLoaded hload⟩
  | ok t =>
      rcases hmake : files.makeDirectories config.outputDirectory with ⟨made, fault⟩
      cases fault with
      | some fault => exact ⟨_, _, .notMade hload hmake⟩
      | none =>
          cases hselect : config.mode.select? input with
          | none => exact ⟨_, _, .notSelected hload hmake hselect⟩
          | some mode =>
              cases hdraw : (ChartData.ofFile config.input t mode).document config.size with
              | error fault => exact ⟨_, _, .notDrawn hload hmake hselect hdraw⟩
              | ok document =>
                  cases hwrite : made.write (config.chartPath setting.temporary)
                      (encode document) with
                  | error fault => exact ⟨_, _, .notWritten hload hmake hselect hdraw hwrite⟩
                  | ok after => exact ⟨_, _, .written hload hmake hselect hdraw hwrite⟩

/-! ## Plans step by step -/

/-- Asking for a mode takes input and leaves the files alone. -/
theorem perform_withMode (setting : Setting) (source : ModeSource) (next : Option Mode → Plan)
    (s : State) :
    ∃ s' : State, s'.files = s.files ∧
      perform setting (.withMode source next) s =
        match source.select? s.input with
        | none => ⟨.error (.io .notText), s'⟩
        | some mode => perform setting (next mode) s' := by
  cases source with
  | given mode => exact ⟨s, rfl, rfl⟩
  | prompt =>
      let asked : State :=
        { s with input := (Prompt.splitLine s.input).2, output := s.output ++ Prompt.text }
      simp only [Plan.withMode, perform, ModeSource.select?]
      cases Prompt.answer? (Prompt.splitLine s.input).1 with
      | none => exact ⟨asked, rfl, rfl⟩
      | some selection => exact ⟨{ asked with log := asked.log ++ selection.log }, rfl, rfl⟩

/-- A chart that has been written stays as it is, whether a viewer starts or not. -/
theorem perform_present (setting : Setting) (save : Bool) (path : Path) (s : State) :
    (perform setting (.present save path) s).result = .ok path ∧
      (perform setting (.present save path) s).state.files = s.files := by
  cases save <;> exact ⟨rfl, rfl⟩

section Steps

variable {s : State} {t : Table} {made : FileSystem}

theorem run_of_notLoaded {fault : Fault}
    (hload : Table.loadFile s.files config.input = .error fault) :
    run setting config s = ⟨.error fault, s⟩ := by
  rw [Table.loadFile] at hload
  simp only [run, Config.plan, perform, hload]
  rfl

theorem run_of_notMade {fault : IoFault} (hload : Table.loadFile s.files config.input = .ok t)
    (hmake : s.files.makeDirectories config.outputDirectory = ⟨made, some fault⟩) :
    (run setting config s).result = .error (.io fault) ∧
      (run setting config s).state.files = made := by
  rw [Table.loadFile] at hload
  simp only [run, Config.plan, perform, hload, hmake]
  exact ⟨rfl, rfl⟩

theorem run_of_made (hload : Table.loadFile s.files config.input = .ok t)
    (hmake : s.files.makeDirectories config.outputDirectory = ⟨made, none⟩) :
    ∃ s' : State, s'.files = made ∧
      run setting config s =
        match config.mode.select? s.input with
        | none => ⟨.error (.io .notText), s'⟩
        | some mode =>
          perform setting (.draw (.ofFile config.input t mode) config.size config.save
            (config.chartPath setting.temporary)) s' := by
  rw [Table.loadFile] at hload
  simp only [run, Config.plan, perform, hload, hmake, Plan.proceed]
  obtain ⟨s', hfiles, hperform⟩ := perform_withMode setting config.mode
    (fun mode => .report (Report.mode mode) <|
      .draw (.ofFile config.input t mode) config.size config.save
        (config.chartPath setting.temporary))
    { s with files := made, log := s.log ++ Report.loaded config.input t }
  rw [hperform]
  cases config.mode.select? s.input with
  | none => exact ⟨s', hfiles, rfl⟩
  | some mode => exact ⟨{ s' with log := s'.log ++ Report.mode mode }, hfiles, rfl⟩

theorem Ends.execution {result : Except Fault Path} {after : FileSystem}
    (h : Ends setting config s.files s.input result after) :
    (run setting config s).result = result ∧ (run setting config s).state.files = after := by
  cases h with
  | notLoaded hload =>
      rw [run_of_notLoaded hload]
      exact ⟨rfl, rfl⟩
  | notMade hload hmake => exact run_of_notMade hload hmake
  | notSelected hload hmake hselect =>
      obtain ⟨s', hfiles, hrun⟩ := run_of_made hload hmake
      rw [hrun, hselect]
      exact ⟨rfl, hfiles⟩
  | notDrawn hload hmake hselect hdraw =>
      obtain ⟨s', hfiles, hrun⟩ := run_of_made hload hmake
      rw [hrun, hselect]
      simp only [Plan.draw, hdraw]
      exact ⟨rfl, hfiles⟩
  | notWritten hload hmake hselect hdraw hwrite =>
      obtain ⟨s', hfiles, hrun⟩ := run_of_made hload hmake
      rw [hrun, hselect]
      simp only [perform, Plan.draw, hdraw, hfiles, hwrite]
      exact ⟨rfl, hfiles⟩
  | written hload hmake hselect hdraw hwrite =>
      obtain ⟨s', hfiles, hrun⟩ := run_of_made hload hmake
      rw [hrun, hselect]
      simp only [perform, Plan.draw, hdraw, hfiles, hwrite]
      exact perform_present setting config.save _ _

end Steps

/-- Every run ends in one of these ways. -/
theorem ends_run (setting : Setting) (config : Config) (s : State) :
    Ends setting config s.files s.input (run setting config s).result
      (run setting config s).state.files := by
  obtain ⟨result, after, h⟩ := exists_ends setting config s.files s.input
  obtain ⟨rfl, rfl⟩ := h.execution
  exact h

end Run

end TimingChart
