import TimingChart.Proofs.Run.Prompting
import TimingChart.Proofs.Text.Decoding

/-! # Prompts in a row

Prompts take the lines of an input one after the other, each prompt one line. A line that is no text
fails the prompt that takes it and no other. -/

namespace TimingChart

open Utf8 (encode)

namespace Prompt

/-! ## Lines -/

/-- The lines of an input. Each ends with the first line feed in it, and only the last one can lack
it. -/
inductive AreLines : List Bytes → Bytes → Prop where
  | none : AreLines [] []
  | unended (line : Bytes) (hne : line ≠ []) (hline : (0x0A : UInt8) ∉ line) :
      AreLines [line] line
  | ended (line : Bytes) (hline : (0x0A : UInt8) ∉ line) {lines : List Bytes} {rest : Bytes}
      (hlines : AreLines lines rest) : AreLines ((line ++ [0x0A]) :: lines) (line ++ 0x0A :: rest)

theorem exists_areLines (input : Bytes) : ∃ lines, AreLines lines input := by
  induction input with
  | nil => exact ⟨[], .none⟩
  | cons b input ih =>
      obtain ⟨lines, hlines⟩ := ih
      by_cases hb : b = 0x0A
      · subst hb
        exact ⟨_, .ended [] List.not_mem_nil hlines⟩
      · cases hlines with
        | none => exact ⟨_, .unended [b] (List.cons_ne_nil b []) (by simpa using Ne.symm hb)⟩
        | unended _ hne hline =>
            exact ⟨_, .unended (b :: input) (List.cons_ne_nil b input)
              (by simp [Ne.symm hb, hline])⟩
        | ended line hline hlines =>
            exact ⟨_, .ended (b :: line) (by simp [Ne.symm hb, hline]) hlines⟩

theorem AreLines.flatten_eq {lines : List Bytes} {input : Bytes} (h : AreLines lines input) :
    lines.flatten = input := by
  induction h with
  | none => rfl
  | unended line => exact List.append_nil line
  | ended line hline hlines ih =>
      rw [List.flatten_cons, ih, List.append_assoc, List.singleton_append]

theorem AreLines.tail {lines : List Bytes} {input : Bytes} (h : AreLines lines input) :
    AreLines lines.tail lines.tail.flatten := by
  cases h with
  | none => exact .none
  | unended => exact .none
  | ended line hline hlines =>
      rw [List.tail_cons, hlines.flatten_eq]
      exact hlines

theorem splitLine_of_not_mem {line : Bytes} (h : (0x0A : UInt8) ∉ line) :
    splitLine line = (line, []) := by
  induction line with
  | nil => rfl
  | cons b line ih =>
      rw [List.mem_cons, not_or] at h
      rw [splitLine, if_neg (Ne.symm h.1), ih h.2]

/-- The first line is what a prompt takes. -/
theorem AreLines.splitLine_eq {lines : List Bytes} {input : Bytes} (h : AreLines lines input) :
    splitLine input = (lines.headD [], lines.tail.flatten) := by
  cases h with
  | none => rfl
  | unended line hne hline => exact splitLine_of_not_mem hline
  | ended line hline hlines =>
      rw [splitLine_append hline, List.headD_cons, List.tail_cons, hlines.flatten_eq]

theorem AreLines.unique {lines lines' : List Bytes} {input : Bytes} (h : AreLines lines input)
    (h' : AreLines lines' input) : lines = lines' := by
  induction h generalizing lines' with
  | none =>
      generalize hinput : ([] : Bytes) = input at h'
      cases h' with
      | none => rfl
      | unended line hne => exact absurd hinput.symm hne
      | ended line => simp at hinput
  | unended line hne hline =>
      cases h' with
      | none => exact absurd rfl hne
      | unended => rfl
      | ended line' => simp at hline
  | ended line hline hlines ih =>
      rename_i rest
      have hsplit := splitLine_append hline rest
      generalize hinput : line ++ 0x0A :: rest = input at h' hsplit
      cases h' with
      | none => simp at hinput
      | unended line' hne hline' => simp [← hinput] at hline'
      | ended line' hline' hlines' =>
          rw [splitLine_append hline'] at hsplit
          obtain ⟨hhead, rfl⟩ := Prod.mk.inj hsplit
          rw [ih hlines', hhead]

/-! ## Calls -/

/-- The selection that a prompt gives or its fault. -/
def Outcome.result (o : Outcome) : Except IoFault Selection.Outcome :=
  match o.selection with
  | some selection => .ok selection
  | none => .error .notText

/-- A prompt has been written once and has taken this line for its answer, be it a text or not. -/
structure Answers (line : Bytes) (o : Outcome) : Prop where
  written_eq : o.written = text
  result_of_text : ∀ answer, line = encode answer → o.result = .ok (Selection.parse answer)
  result_of_noText : (∀ answer, line ≠ encode answer) → o.result = .error .notText

theorem answers (line rest : Bytes) : Answers line ⟨answer? line, text, rest⟩ where
  written_eq := rfl
  result_of_text := by
    rintro answer rfl
    rw [Outcome.result, answer?, Utf8.decode?_encode]
    rfl
  result_of_noText := by
    intro hnone
    have hdecode : Utf8.decode? line = none :=
      Option.eq_none_iff_forall_ne_some.mpr fun answer hanswer =>
        hnone answer (Utf8.decode?_eq_some_iff.mp hanswer)
    rw [Outcome.result, answer?, hdecode]
    rfl

/-- Calls take line by line, and nothing at the end of the input. -/
theorem askTimes_eq (times : Nat) {lines : List Bytes} {input : Bytes} (h : AreLines lines input) :
    askTimes times input = (List.range times).map fun call =>
      ⟨answer? (lines.getD call []), text, (lines.drop (call + 1)).flatten⟩ := by
  induction times generalizing lines input with
  | zero => rfl
  | succ times ih =>
      have hrest : (ask input).rest = lines.tail.flatten := by rw [ask, h.splitLine_eq]
      have hfirst : ask input = ⟨answer? (lines.getD 0 []), text, (lines.drop 1).flatten⟩ := by
        rw [ask, h.splitLine_eq]
        cases lines <;> rfl
      rw [askTimes, hrest, ih h.tail, hfirst, List.range_succ_eq_map, List.map_cons, List.map_map]
      congr 2
      funext call
      cases lines with
      | nil => rfl
      | cons line lines => rfl

/-! ## Main result -/

/-- Each call is answered by the next line and takes exactly this line from the input. What a call
leads to depends on its own line and on those behind it only. -/
theorem askTimes_spec (times : Nat) (input : Bytes) :
    ∃ lines, AreLines lines input ∧ (∀ others, AreLines others input → others = lines) ∧
      (askTimes times input).length = times ∧
      (∀ call < times, ∃ o, (askTimes times input)[call]? = some o ∧
        Answers (lines.getD call []) o ∧ input = (lines.take (call + 1)).flatten ++ o.rest) ∧
      ∀ input' lines' call, AreLines lines' input' → lines'.drop call = lines.drop call →
        (askTimes times input').drop call = (askTimes times input).drop call := by
  obtain ⟨lines, hlines⟩ := exists_areLines input
  refine ⟨lines, hlines, fun others hothers => hothers.unique hlines, ?_, ?_, ?_⟩
  · rw [askTimes_eq times hlines, List.length_map, List.length_range]
  · intro call hcall
    refine ⟨⟨_, _, (lines.drop (call + 1)).flatten⟩, ?_, answers _ _, ?_⟩
    · rw [askTimes_eq times hlines, List.getElem?_map, List.getElem?_range hcall, Option.map_some]
    · rw [← List.flatten_append, List.take_append_drop, hlines.flatten_eq]
  · intro input' lines' call hlines' hdrop
    have hline : ∀ later, lines'.getD (call + later) [] = lines.getD (call + later) [] := by
      intro later
      rw [List.getD_eq_getElem?_getD, List.getD_eq_getElem?_getD, ← List.getElem?_drop, hdrop,
        List.getElem?_drop]
    have hrest : ∀ later, lines'.drop (call + later + 1) = lines.drop (call + later + 1) := by
      intro later
      rw [Nat.add_assoc, ← List.drop_drop, hdrop, List.drop_drop]
    rw [askTimes_eq times hlines, askTimes_eq times hlines']
    apply List.ext_getElem?
    intro later
    rw [List.getElem?_drop, List.getElem?_drop, List.getElem?_map, List.getElem?_map]
    by_cases hlt : call + later < times
    · rw [List.getElem?_range hlt, Option.map_some, Option.map_some, hline, hrest]
    · rw [List.getElem?_eq_none (by simpa using hlt), Option.map_none, Option.map_none]

/-- A line that is no text is taken whole. The answer behind it is read to the end of the input, as
it would be behind any other line. -/
theorem askTimes_spec_brokenLine :
    let input : Bytes := [0x31, 0x0D, 0x0A, 0xFF, 0x32, 0x0A, 0x33]
    let other : Bytes := [0x0A, 0x0A, 0x33]
    (∃ o, (askTimes 4 input)[1]? = some o ∧ o.result = .error .notText ∧ o.rest = [0x33]) ∧
      (∃ o, (askTimes 4 input)[2]? = some o ∧ o.result = .ok ⟨some .cols2, []⟩ ∧ o.rest = []) ∧
      (∃ o, (askTimes 4 input)[3]? = some o ∧ o.result = .ok (Selection.parse [])) ∧
      (askTimes 4 other).drop 2 = (askTimes 4 input).drop 2 := by
  intro input other
  have hlast : AreLines [[0x33]] [0x33] := .unended _ (by decide) (by decide)
  have hinput : AreLines [[0x31, 0x0D, 0x0A], [0xFF, 0x32, 0x0A], [0x33]] input :=
    .ended [0x31, 0x0D] (by decide) (.ended [0xFF, 0x32] (by decide) hlast)
  have hother : AreLines [[0x0A], [0x0A], [0x33]] other :=
    .ended [] (by decide) (.ended [] (by decide) hlast)
  obtain ⟨lines, -, hunique, -, hcalls, hlater⟩ := askTimes_spec 4 input
  obtain rfl := hunique _ hinput
  refine ⟨?_, ?_, ?_, hlater other _ 2 hother rfl⟩
  · obtain ⟨o, ho, hanswers, hrest⟩ := hcalls 1 (by decide)
    have hnone : ∀ answer, [0xFF, 0x32, 0x0A] ≠ encode answer := by
      intro answer hencode
      have hdecode := Utf8.decode?_eq_some_iff.mpr hencode
      rw [show Utf8.decode? [0xFF, 0x32, 0x0A] = none by decide] at hdecode
      contradiction
    have hleft := List.append_cancel_left
      (show [0x31, 0x0D, 0x0A, 0xFF, 0x32, 0x0A] ++ [0x33] = _ ++ o.rest from hrest)
    exact ⟨o, ho, hanswers.result_of_noText hnone, hleft.symm⟩
  · obtain ⟨o, ho, hanswers, hrest⟩ := hcalls 2 (by decide)
    have hleft := List.append_cancel_left (show input ++ [] = _ ++ o.rest from hrest)
    exact ⟨o, ho, hanswers.result_of_text ['3'] rfl, hleft.symm⟩
  · obtain ⟨o, ho, hanswers, -⟩ := hcalls 3 (by decide)
    exact ⟨o, ho, hanswers.result_of_text [] rfl⟩

end Prompt

/-! ## Prompts of runs -/

/-- A run that asks for its mode does what a prompt says. -/
theorem Run.perform_withMode_prompt (setting : Setting) (next : Option Mode → Plan) (s : State) :
    perform setting (.withMode .prompt next) s =
      let o := Prompt.ask s.input
      let asked : State := { s with input := o.rest, output := s.output ++ o.written }
      match o.result with
      | .ok selection =>
        perform setting (next selection.mode) { asked with log := asked.log ++ selection.log }
      | .error fault => ⟨.error (.io fault), asked⟩ := by
  simp only [Plan.withMode, perform, Prompt.Outcome.result, Prompt.ask]
  cases Prompt.answer? (Prompt.splitLine s.input).1 <;> rfl

end TimingChart
