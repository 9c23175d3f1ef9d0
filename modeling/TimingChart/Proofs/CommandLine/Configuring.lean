import TimingChart.Proofs.CommandLine.Reading
import TimingChart.Proofs.Fallible

/-! # Reading command lines

Whatever way a request is written, its words are read as the configuration that it asks for. What
has been collected from them belongs to the request, in some order, and no option comes twice, so
that the order decides nothing. -/

namespace TimingChart

namespace CommandLine

open Utf8 (encode)

/-! ## What is asked for -/

/-- Reordering pairs with different keys does not change what is found under a key. -/
theorem lookup_eq_of_perm {α β : Type} [BEq α] [LawfulBEq α] {pairs pairs' : List (α × β)}
    (hperm : pairs.Perm pairs') (hkeys : (pairs.map Prod.fst).Nodup) (key : α) :
    pairs.lookup key = pairs'.lookup key := by
  induction hperm with
  | nil => rfl
  | cons pair hperm ih =>
      rw [List.map_cons, List.nodup_cons] at hkeys
      rw [List.lookup_cons, List.lookup_cons, ih hkeys.2]
  | swap first second pairs =>
      obtain ⟨k, v⟩ := first
      obtain ⟨k', v'⟩ := second
      have hne : k' ≠ k := by
        rintro rfl
        simp at hkeys
      rw [List.lookup_cons, List.lookup_cons, List.lookup_cons, List.lookup_cons]
      cases hk : key == k with
      | false => rfl
      | true =>
          have hk' : (key == k') = false := by simp [beq_iff_eq.mp hk, hne.symm]
          rw [hk']
  | trans hperm hperm' ih ih' =>
      rw [ih hkeys, ih' ((hperm.map _).nodup_iff.mp hkeys)]

namespace Request

variable (r : Request)

/-- Whether the request is about an option or the flag. -/
def names (key : Key) : Bool := if key.takesValue then (r.value? key).isSome else r.save

/-- The values that the request has, each with its option. -/
def values : List (Key × Bytes) :=
  Key.all.filterMap fun key => (r.value? key).map fun value => (key, encode value)

variable {r}

theorem part?_of_takesValue {key : Key} (takesValue : key.takesValue) :
    r.part? key = (r.value? key).map (.option key takesValue) := dif_pos takesValue

theorem part?_save : r.part? .save = if r.save then some .save else none := rfl

theorem eq_save_of_not_takesValue {key : Key} (h : ¬ key.takesValue) : key = .save := by
  cases key <;> first | rfl | exact absurd rfl h

variable (r)

theorem inputs_options : r.options.filterMap Part.input? = [] := by
  rw [List.filterMap_eq_nil_iff]
  intro part hpart
  cases part with
  | input path => exact absurd rfl (ne_input_of_mem_options hpart path)
  | option | save => rfl

theorem inputs_parts : r.parts.filterMap Part.input? = [r.input] := by
  have hinput : Part.input? (.input r.input) = some r.input := rfl
  rw [parts, List.filterMap_cons_some hinput, inputs_options]

theorem keys_parts : r.parts.filterMap Part.key? = Key.all.filter r.names := by
  have hoptions : ∀ key, (r.part? key).bind Part.key? = Option.guard r.names key := by
    intro key
    rw [Option.guard, names]
    by_cases takesValue : key.takesValue
    · rw [part?_of_takesValue takesValue, if_pos takesValue]
      cases r.value? key <;> rfl
    · rw [eq_save_of_not_takesValue takesValue, part?_save]
      cases r.save <;> rfl
  have hinput : Part.key? (.input r.input) = none := rfl
  simp only [parts, options, List.filterMap_cons_none hinput, List.filterMap_filterMap, hoptions,
    List.filterMap_eq_filter]

theorem values_parts : r.parts.filterMap Part.value? = r.values := by
  have hoptions : ∀ key, (r.part? key).bind Part.value? =
      (r.value? key).map fun value => (key, encode value) := by
    intro key
    by_cases takesValue : key.takesValue
    · rw [part?_of_takesValue takesValue]
      cases r.value? key <;> rfl
    · rw [eq_save_of_not_takesValue takesValue, part?_save]
      cases r.save <;> rfl
  have hinput : Part.value? (.input r.input) = none := rfl
  simp only [parts, options, List.filterMap_cons_none hinput, List.filterMap_filterMap, hoptions,
    values]

theorem nodup_keys_values : (r.values.map Prod.fst).Nodup := by
  have hkeys : r.values.map Prod.fst = Key.all.filter fun key => (r.value? key).isSome := by
    rw [values, List.map_filterMap, ← List.filterMap_eq_filter]
    congr 1
    funext key
    cases hvalue : r.value? key <;> simp [Option.guard, hvalue]
  rw [hkeys]
  exact (show Key.all.Nodup by decide).filter _

theorem lookup_values (key : Key) : r.values.lookup key = (r.value? key).map encode := by
  have hlookup : ∀ keys : List Key,
      (keys.filterMap fun key => (r.value? key).map fun value => (key, encode value)).lookup key =
        if key ∈ keys then (r.value? key).map encode else none := by
    intro keys
    induction keys with
    | nil => rfl
    | cons k keys ih =>
        by_cases hk : key = k
        · subst hk
          cases hvalue : r.value? key with
          | none => simp [hvalue, ih]
          | some value => simp [hvalue]
        · have hbeq : (key == k) = false := by simpa using hk
          cases hvalue : r.value? k with
          | none => simp [hvalue, ih, hk]
          | some value => simp [hvalue, List.lookup_cons, hbeq, ih, hk]
  rw [values, hlookup, if_pos (by cases key <;> decide)]

end Request

namespace Words.Holds

variable {w : Words} {r : Request} (h : w.Holds r.parts)
include h

theorem input_eq : w.input = some (encode r.input) := by
  have hinput := h.input_perm
  rw [r.inputs_parts] at hinput
  exact Option.toList_eq_singleton_iff.mp (List.perm_singleton.mp hinput)

theorem uses_perm_filter : w.uses.Perm (Key.all.filter r.names) := r.keys_parts ▸ h.uses_perm

theorem value?_eq (key : Key) :
    w.value? key =
      ((r.value? key).map encode).or (key.default?.map fun text => encode text.toList) := by
  have hvalues : r.values.Perm w.values := r.values_parts ▸ h.values_perm.symm
  rw [value?, ← lookup_eq_of_perm hvalues r.nodup_keys_values, r.lookup_values]

/-- Every option has a value, and none is repeated. -/
theorem refusal?_eq_none : w.refusal? = none := by
  have hlacks : Key.all.find? w.lacksValue = none := by
    rw [List.find?_eq_none]
    intro key hkey hlacks
    simp only [lacksValue, Bool.and_eq_true, List.contains_iff_mem,
      h.uses_perm_filter.mem_iff, List.mem_filter, h.value?_eq] at hlacks
    obtain ⟨⟨takesValue, -, hnames⟩, hnone⟩ := hlacks
    rw [Request.names, if_pos takesValue] at hnames
    obtain ⟨value, hvalue⟩ := Option.isSome_iff_exists.mp hnames
    rw [hvalue] at hnone
    cases hnone
  have hcount : (Key.all.find? fun key => 1 < w.uses.count key) = none := by
    have hnodup : w.uses.Nodup :=
      h.uses_perm_filter.nodup_iff.mpr ((show Key.all.Nodup by decide).filter _)
    rw [List.find?_eq_none]
    intro key hkey hcount
    have hone := List.nodup_iff_count_le_one.mp hnodup key
    exact absurd (of_decide_eq_true hcount) (by omega)
  rw [refusal?, h.input_eq, hlacks, hcount]
  rfl

end Words.Holds

theorem textOf_encode (text : List Char) : textOf (encode text) = .ok text := by
  rw [textOf, Utf8.decode?_encode]

theorem lengthOf_encode (l : LengthText) : lengthOf (encode l.digits) = .ok l.value := by
  rw [lengthOf, textOf_encode]
  exact mapError_eq_ok_iff.mpr (Numeral.readUInt32_digits l.ne_nil l.isDigit l.inRange)

/-- A length is the one that is asked for or the default. -/
theorem lengthOf_getD (l : Option LengthText) (default : LengthText) :
    lengthOf ((((l.map LengthText.digits).map encode).or (some (encode default.digits))).getD []) =
      .ok ((l.map LengthText.value).getD default.value) := by
  cases l <;> exact lengthOf_encode _

namespace Words.Holds

variable {w : Words} {r : Request} (h : w.Holds r.parts)
include h

theorem modeOf_eq : modeOf (w.value? .mode) = .ok (r.config.mode, r.log) := by
  have hvalue : w.value? .mode = r.mode.map encode := by
    rw [h.value?_eq, Key.default?, Option.map_none, Option.or_none]
    rfl
  rw [hvalue, Request.config, Request.log]
  cases r.mode with
  | none => rfl
  | some answer =>
      simp only [Option.map_some, modeOf, textOf_encode]
      rfl

theorem contains_save : w.uses.contains .save = r.save := by
  have hmem : Key.save ∈ w.uses ↔ r.save := by
    rw [h.uses_perm_filter.mem_iff, List.mem_filter]
    exact and_iff_right (by decide)
  rw [Bool.eq_iff_iff, List.contains_iff_mem, hmem]

theorem configure_eq : configure w = ⟨.ok r.config, r.log⟩ := by
  have houtput : (w.value? .outputDirectory).getD [] =
      encode (r.outputDirectory.getD "./vector_api_test_plots/".toList) := by
    rw [h.value?_eq, Request.value?]
    cases r.outputDirectory <;> rfl
  have hwidth : lengthOf ((w.value? .width).getD []) =
      .ok ((r.width.map LengthText.value).getD 1600) := by
    rw [h.value?_eq]
    exact lengthOf_getD r.width ⟨"1600".toList, by decide, by decide, by decide⟩
  have hheight : lengthOf ((w.value? .height).getD []) =
      .ok ((r.height.map LengthText.value).getD 800) := by
    rw [h.value?_eq]
    exact lengthOf_getD r.height ⟨"800".toList, by decide, by decide, by decide⟩
  simp only [configure, h.input_eq, h.modeOf_eq, h.contains_save, houtput, hwidth, hheight,
    Option.getD_some, textOf_encode, bind, Except.bind, pure, Except.pure]
  rfl

end Words.Holds

/-- The words for a request are read as its parts. -/
theorem Request.IsWritten.readAll_start {r : Request} {words : List (List Char)}
    (h : r.IsWritten words) (calledAs : String) :
    ∃ w : Words, (Words.start calledAs).readAll (words.map encode) = .ok w ∧ w.Holds r.parts := by
  have hready : (Words.start calledAs).IsReady := ⟨rfl, rfl⟩
  have hstart := Words.holds_start calledAs
  cases h with
  | anywhere parts groups hparts hgroups =>
      have hone : ((([] : List Part) ++ parts).filterMap Part.input?).length ≤ 1 := by
        rw [List.nil_append, (hparts.filterMap _).length_eq, r.inputs_parts]
        exact Nat.le_refl _
      obtain ⟨w, -, hholds, hread⟩ := Words.readAll_groups hgroups hready hstart hone
      refine ⟨w, ?_, hholds.perm hparts⟩
      simpa [Words.readAll] using hread []
  | last options groups hoptions hgroups =>
      have hnone : options.filterMap Part.input? = [] :=
        List.perm_nil.mp (r.inputs_options ▸ hoptions.filterMap _)
      obtain ⟨w, hnext, hholds, hread⟩ := Words.readAll_groups hgroups hready hstart
        (by rw [List.nil_append, hnone]; exact Nat.zero_le _)
      have hinput : w.input = none := by
        have hempty := hholds.input_perm
        rw [List.nil_append, hnone] at hempty
        exact Option.toList_eq_nil_iff.mp (List.perm_nil.mp hempty)
      have hlast : (w.enter (.input r.input)).Holds (.input r.input :: options) :=
        hholds.enter fun _ => hinput
      refine ⟨_, ?_, (hlast.perm (hoptions.cons _)).setPlainOnly⟩
      rw [List.map_append, hread]
      exact Words.readAll_last hnext hinput r.input

/-- Whatever way a request is written, it is read as the configuration that it asks for. -/
theorem parse_of_isWritten (program : Bytes) {r : Request} {words : List (List Char)}
    (h : r.IsWritten words) : parse (program :: words.map encode) = ⟨.ok r.config, r.log⟩ := by
  obtain ⟨w, hread, hholds⟩ := h.readAll_start (calledAs program)
  simp only [parse, List.headD_cons, List.drop_succ_cons, List.drop_zero, hread,
    hholds.refusal?_eq_none, hholds.configure_eq]

/-- Names with one letter and whole names, values in words of their own and attached ones, and the
input before or behind the options. -/
theorem parse_of_isWritten_mixedSpellings :
    let r : Request := {
      input := "-".toList, mode := some "3".toList, outputDirectory := some "-".toList, save := true
      width := some ⟨"0640".toList, by decide, by decide, by decide⟩, height := none }
    r.config = ⟨⟨[0x2D]⟩, .given (some .cols2), ⟨[0x2D]⟩, true, ⟨640, 800⟩⟩ ∧
      parse ([] :: ["--width", "0640", "-s", "-", "-d", "-", "-m=3"].map
        fun word => encode word.toList) = ⟨.ok r.config, []⟩ ∧
      parse ([] :: ["-m3", "--outdir=-", "--save", "--width=0640", "--", "-"].map
        fun word => encode word.toList) = ⟨.ok r.config, []⟩ := by
  intro r
  have hmode : Key.mode.short? = some 'm' := rfl
  have houtput : Key.outputDirectory.short? = some 'd' := rfl
  have hsave : Key.save.short? = some 's' := rfl
  have hfirst : r.IsWritten
      (["--width", "0640", "-s", "-", "-d", "-", "-m=3"].map String.toList) := by
    refine .anywhere
      [.option .width rfl "0640".toList, .save, .input "-".toList,
        .option .outputDirectory rfl "-".toList, .option .mode rfl "3".toList]
      [["--width".toList, "0640".toList], ["-s".toList], ["-".toList],
        ["-d".toList, "-".toList], ["-m=3".toList]] (by decide) ?_
    refine .cons ?_ (.cons ?_ (.cons ?_ (.cons ?_ (.cons ?_ .nil))))
    · exact .option _ _ _ _ (.separate _ .long (by decide))
    · exact .save _ (.short 's' hsave)
    · exact .input _ (by decide)
    · exact .option _ _ _ _ (.separate _ (.short 'd' houtput) (by decide))
    · exact .option _ _ _ _ (.shortEquals 'm' hmode (by decide) (by decide))
  have hsecond : r.IsWritten
      (["-m3", "--outdir=-", "--save", "--width=0640", "--", "-"].map String.toList) := by
    refine .last
      [.option .mode rfl "3".toList, .option .outputDirectory rfl "-".toList, .save,
        .option .width rfl "0640".toList]
      [["-m3".toList], ["--outdir=-".toList], ["--save".toList], ["--width=0640".toList]]
      (by decide) ?_
    refine .cons ?_ (.cons ?_ (.cons ?_ (.cons ?_ .nil)))
    · exact .option _ _ _ _ (.short 'm' hmode (by decide) (by decide))
    · exact .option _ _ _ _ (.long (by decide))
    · exact .save _ .long
    · exact .option _ _ _ _ (.long (by decide))
  exact ⟨by decide, parse_of_isWritten [] hfirst, parse_of_isWritten [] hsecond⟩

end CommandLine

end TimingChart
