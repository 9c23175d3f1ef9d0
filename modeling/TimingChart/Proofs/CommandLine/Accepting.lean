import TimingChart.Proofs.CommandLine.Arguments
import TimingChart.Proofs.CommandLine.Configuring

/-! # Accepting arguments

Every list of arguments is read in some way. What has been read is a configuration if there is an
input, if nothing comes twice or lacks its value, and if the values are texts and numbers where they
have to be. The paths in it are those of the arguments, byte by byte. -/

namespace TimingChart.CommandLine

open Utf8 (encode IsText)
open Words (dash equalsSign longWord)

/-! ## Every line is read -/

/-- Bytes begin with some number of times the same. -/
theorem exists_replicate (b : UInt8) (bytes : Bytes) :
    ∃ count rest, bytes = List.replicate count b ++ rest ∧ rest.head? ≠ some b := by
  induction bytes with
  | nil => exact ⟨0, [], rfl, nofun⟩
  | cons b' bytes ih =>
      by_cases hb : b' = b
      · obtain ⟨count, rest, rfl, hrest⟩ := ih
        exact ⟨count + 1, rest, by rw [hb]; rfl, hrest⟩
      · exact ⟨0, b' :: bytes, rfl, fun h => hb (Option.some.inj h)⟩

theorem exists_longWord (others : Bytes) :
    ∃ more name attached, dash :: dash :: others = longWord more name attached ∧
      name.head? ≠ some dash ∧ equalsSign ∉ name := by
  obtain ⟨more, body, rfl, hbody⟩ := exists_replicate dash others
  by_cases hequals : equalsSign ∈ body
  · obtain ⟨name, value, rfl, hname⟩ := List.eq_append_cons_of_mem hequals
    refine ⟨more, name, some value, rfl, ?_, hname⟩
    cases name with
    | nil => exact nofun
    | cons b name => exact hbody
  · refine ⟨more, body, none, ?_, hbody, hequals⟩
    rw [longWord, Words.attachment, List.append_nil]
    rfl

/-- An ASCII character that is shown first is there first. -/
theorem cons_eq_encode_append {b : UInt8} {others : Bytes} {c : Char} (hc : c.toNat < 0x80)
    (hne : c ≠ '\x00') (hshown : (Utf8.decodeLossy (b :: others)).head? = some c) :
    b :: others = encode [c] ++ others := by
  have hb := Utf8.toNat_of_head?_decodeLossy hc hne hshown
  have hencode := Utf8.encodeChar_one (b := b) (by omega)
  rw [hb, Char.ofNat_toNat] at hencode
  rw [encode, List.flatMap_singleton, hencode, List.singleton_append]

section Forms

variable (program : String) (rest : List Bytes)

/-- The word is read alone, or it stops the reader. -/
def IsRead (word : Bytes) : Prop :=
  (∃ said pending?, Says word said pending?) ∨ ∃ stop, StopsAt program word rest stop

theorem isRead_longWord (more : Nat) {name : Bytes} (hdash : name.head? ≠ some dash)
    (hequals : equalsSign ∉ name) (attached : Option Bytes)
    (hword : longWord more name attached ≠ [dash, dash]) :
    IsRead program rest (longWord more name attached) := by
  by_cases hkey : ∃ key : Key, name = encode key.long.toList
  · left
    obtain ⟨key, rfl⟩ := hkey
    by_cases takesValue : key.takesValue
    · cases attached with
      | none => exact ⟨_, _, .option more takesValue⟩
      | some value =>
          obtain ⟨equals, value, rfl, hvalue⟩ := exists_replicate equalsSign value
          exact ⟨_, _, .optionValue more equals takesValue hvalue⟩
    · rw [Request.eq_save_of_not_takesValue takesValue]
      exact ⟨_, _, .flag more attached⟩
  right
  by_cases hhelp : name = encode "help".toList
  · exact ⟨_, hhelp ▸ StopsAt.help more attached rest⟩
  by_cases hversion : name = encode "version".toList
  · exact ⟨_, hversion ▸ StopsAt.version more attached rest⟩
  have hnames : ∀ known ∈ longNames,
      known = "help" ∨ known = "version" ∨ ∃ key ∈ Key.all, known = key.long := by decide
  have hunknown : IsUnknown name := by
    refine ⟨hdash, hequals, fun known hknown hname => ?_⟩
    rcases hnames known hknown with rfl | rfl | ⟨key, -, rfl⟩
    · exact hhelp hname
    · exact hversion hname
    · exact hkey ⟨key, hname⟩
  by_cases htext : IsText name ∧ ∀ word ∈ rest, IsText word
  · obtain ⟨⟨text, rfl⟩, hrest⟩ := htext
    exact ⟨_, .unknownName more attached hunknown hword hrest⟩
  · exact ⟨_, .notText more attached hunknown hword htext⟩

theorem isRead_letterWord (count : Nat) {letters : Bytes} (hsave : letters.head? ≠ some 0x73)
    (hne : 0 < count ∨ letters ≠ []) (hdash : 0 < count ∨ letters.head? ≠ some dash) :
    IsRead program rest (letterWord count letters) := by
  cases letters with
  | nil =>
      obtain ⟨more, rfl⟩ := Nat.exists_eq_succ_of_ne_zero (hne.resolve_right (by simp)).ne'
      exact .inl ⟨_, _, .flags more⟩
  | cons b others =>
      obtain ⟨c, hshown⟩ := Utf8.exists_head?_decodeLossy b others
      by_cases hc : c ∈ ['m', 'd', 's', 'h', 'V']
      · have hascii : ∀ c ∈ ['m', 'd', 's', 'h', 'V'], c.toNat < 0x80 ∧ c ≠ '\x00' := by simp
        have hbytes := cons_eq_encode_append (hascii c hc).1 (hascii c hc).2 hshown
        have hoption : ∀ key : Key, key.takesValue → key.short? = some c →
            IsRead program rest (letterWord count (b :: others)) := by
          intro key takesValue hletter
          left
          rw [hbytes]
          by_cases hothers : others = []
          · rw [hothers, List.append_nil]
            exact ⟨_, _, .letter count takesValue hletter⟩
          · obtain ⟨equals, value, rfl, hvalue⟩ := exists_replicate equalsSign others
            exact ⟨_, _, .letterValue count equals takesValue hletter hothers hvalue⟩
        simp only [List.mem_cons, List.not_mem_nil, or_false] at hc
        rcases hc with rfl | rfl | rfl | rfl | rfl
        · exact hoption .mode rfl rfl
        · exact hoption .outputDirectory rfl rfl
        · exact absurd (congrArg List.head? hbytes) hsave
        · rw [hbytes]
          exact .inr ⟨_, .helpLetter count others rest⟩
        · rw [hbytes]
          exact .inr ⟨_, .versionLetter count others rest⟩
      · exact .inr ⟨_, .unknownLetter count rest hdash hshown hc⟩

/-- There is a form for each word. -/
theorem isRead_of_not_isOperand {word : Bytes} (hoperand : ¬ IsOperand word)
    (hword : word ≠ [dash, dash]) : IsRead program rest word := by
  match word with
  | [] => exact absurd (.inr nofun) hoperand
  | [b] =>
      refine absurd ?_ hoperand
      by_cases hb : b = dash
      · exact .inl (by rw [hb])
      · exact .inr fun h => hb (Option.some.inj h)
  | first :: second :: others =>
      obtain rfl : first = dash := by
        by_contra hfirst
        exact hoperand (.inr fun h => hfirst (Option.some.inj h))
      by_cases hsecond : second = dash
      · subst hsecond
        obtain ⟨more, name, attached, hlong, hdash, hequals⟩ := exists_longWord others
        rw [hlong] at hword ⊢
        exact isRead_longWord program rest more hdash hequals attached hword
      · obtain ⟨count, letters, hletters, hsave⟩ := exists_replicate 0x73 (second :: others)
        have hbytes : dash :: second :: others = letterWord count letters :=
          congrArg (dash :: ·) hletters
        rw [hbytes]
        cases count with
        | succ count =>
            exact isRead_letterWord program rest _ hsave (.inl (by simp)) (.inl (by simp))
        | zero =>
            obtain rfl : second :: others = letters := hletters
            exact isRead_letterWord program rest 0 hsave (.inr (by simp)) (.inr (by simpa))

end Forms

/-- Every line of words is read in some way. -/
theorem exists_reads (program : String) (plainOnly hasInput : Bool) (words : List Bytes) :
    ∃ items stop?, Reads program plainOnly hasInput words items stop? := by
  match words with
  | [] => exact ⟨_, _, .nil plainOnly hasInput⟩
  | word :: rest =>
      by_cases hpath : plainOnly ∨ IsOperand word
      · cases hasInput with
        | true => exact ⟨_, _, .secondInput rest hpath⟩
        | false =>
            obtain ⟨items, stop?, hrest⟩ := exists_reads program plainOnly true rest
            exact ⟨_, _, .input hpath hrest⟩
      rw [not_or, Bool.not_eq_true] at hpath
      obtain ⟨rfl, hoperand⟩ := hpath
      by_cases hdashes : word = [dash, dash]
      · obtain ⟨items, stop?, hrest⟩ := exists_reads program true hasInput rest
        exact ⟨_, _, hdashes ▸ Reads.dashes hrest⟩
      rcases isRead_of_not_isOperand program rest hoperand hdashes with
        ⟨said, pending?, hsaid⟩ | ⟨stop, hstop⟩
      · cases pending? with
        | none =>
            obtain ⟨items, stop?, hrest⟩ := exists_reads program false hasInput rest
            exact ⟨_, _, .whole hsaid hrest⟩
        | some key =>
            by_cases hnext : ∃ value others, rest = value :: others ∧ IsOperand value
            · obtain ⟨value, others, rfl, hvalue⟩ := hnext
              obtain ⟨items, stop?, hothers⟩ := exists_reads program false hasInput others
              exact ⟨_, _, .valued hsaid hvalue hothers⟩
            · obtain ⟨items, stop?, hrest⟩ := exists_reads program false hasInput rest
              refine ⟨_, _, .unvalued hsaid (fun next hmem hvalue => hnext ?_) hrest⟩
              obtain ⟨others, rfl⟩ := List.head?_eq_some_iff.mp hmem
              exact ⟨next, others, rfl, hvalue⟩
      · exact ⟨_, _, .stops hstop⟩
termination_by words.length

/-! ## What is complete -/

/-- There is an input, nothing comes twice, and a mode does not lack its value. The other options
have values of their own. -/
structure IsComplete (items : List Item) : Prop where
  exists_input : ∃ path, Item.input path ∈ items
  nodup_keys : (items.filterMap Item.key?).Nodup
  mode_valued : Item.use .mode none ∉ items

theorem mem_inputs_iff {items : List Item} {path : Bytes} :
    path ∈ items.filterMap Item.input? ↔ .input path ∈ items := by
  rw [List.mem_filterMap]
  constructor
  · rintro ⟨item, hitem, hpath⟩
    cases item with
    | input path' => exact Option.some.inj hpath ▸ hitem
    | use => cases hpath
  · intro hmem
    exact ⟨_, hmem, rfl⟩

/-- Where no key comes twice, its value is the one that it is used with. -/
theorem lookup_values_eq_some_iff {items : List Item} (h : (items.filterMap Item.key?).Nodup)
    {key : Key} {value : Bytes} :
    (items.filterMap Item.value?).lookup key = some value ↔ .use key (some value) ∈ items := by
  induction items with
  | nil => simp
  | cons item items ih =>
      cases item with
      | input path => simpa [List.filterMap_cons] using ih (by simpa [List.filterMap_cons] using h)
      | use k v =>
          simp only [List.filterMap_cons, Item.key?, List.nodup_cons] at h
          have hkey : ∀ v', .use k v' ∉ items := fun v' hmem =>
            h.1 (List.mem_filterMap.mpr ⟨_, hmem, rfl⟩)
          cases v with
          | none => simpa [List.filterMap_cons] using ih h.2
          | some v =>
              by_cases hk : key = k
              · subst hk
                simp [hkey, eq_comm]
              · have hbeq : (key == k) = false := by simpa using hk
                simpa [List.filterMap_cons, List.lookup_cons, hbeq, hk] using ih h.2

/-- Where no key comes twice, it is used in one way. -/
theorem value_unique {items : List Item} (h : (items.filterMap Item.key?).Nodup) {key : Key}
    {value value' : Option Bytes} (hvalue : .use key value ∈ items)
    (hvalue' : .use key value' ∈ items) : value = value' := by
  by_contra hne
  let differ (item item' : Item) : Prop :=
    ∀ key, item.key? = some key → ∀ key', item'.key? = some key' → key ≠ key'
  have hdiffer : items.Pairwise differ := List.pairwise_filterMap.mp h
  have : Std.Symm differ := ⟨fun _ _ h key hkey key' hkey' => (h key' hkey' key hkey).symm⟩
  exact hdiffer.forall hvalue hvalue' (by simpa using hne) key rfl key rfl rfl

/-- Only a mode can lack its value. -/
theorem Words.eq_mode_of_lacksValue {w : Words} {key : Key} (h : w.lacksValue key) :
    key = .mode := by
  rw [lacksValue, Bool.and_eq_true, Bool.and_eq_true] at h
  obtain ⟨⟨takesValue, -⟩, hnone⟩ := h
  cases key with
  | mode => rfl
  | save => cases takesValue
  | outputDirectory | width | height => simp [value?, Key.default?] at hnone

namespace Words.Collects

variable {calledAs : String} {items : List Item} {w : Words}
  (h : (Words.start calledAs).Collects items w)
include h

theorem isSome_input_iff : w.input.isSome ↔ ∃ path, Item.input path ∈ items := by
  have hinput : w.input.toList = items.filterMap Item.input? := h.input_eq
  rw [Option.isSome_iff_exists]
  refine exists_congr fun path => ?_
  rw [← mem_inputs_iff, ← hinput, Option.mem_toList]

theorem value?_eq (hkeys : (items.filterMap Item.key?).Nodup) {key : Key} {value : Bytes}
    (hvalue : .use key (some value) ∈ items) : w.value? key = some value := by
  have hvalues : w.values = items.filterMap Item.value? := h.values_eq
  rw [Words.value?, hvalues, (lookup_values_eq_some_iff hkeys).mpr hvalue, Option.some_or]

theorem value?_eq_default (hkeys : (items.filterMap Item.key?).Nodup) {key : Key}
    (hnone : ∀ value, .use key (some value) ∉ items) :
    w.value? key = key.default?.map fun text => encode text.toList := by
  have hvalues : w.values = items.filterMap Item.value? := h.values_eq
  have hlookup : (items.filterMap Item.value?).lookup key = none := by
    rw [Option.eq_none_iff_forall_ne_some]
    intro value hvalue
    exact hnone value ((lookup_values_eq_some_iff hkeys).mp hvalue)
  rw [Words.value?, hvalues, hlookup, Option.none_or]

theorem lacksValue_mode_iff (hkeys : (items.filterMap Item.key?).Nodup) :
    w.lacksValue .mode ↔ .use .mode none ∈ items := by
  have huses : w.uses = items.filterMap Item.key? := h.uses_eq
  rw [lacksValue, Bool.and_eq_true, Bool.and_eq_true, List.contains_iff_mem,
    Option.isNone_iff_eq_none, huses, List.mem_filterMap]
  constructor
  · rintro ⟨⟨-, item, hitem, hmode⟩, hnone⟩
    cases item with
    | input path => cases hmode
    | use key value =>
        obtain rfl : key = .mode := Option.some.inj hmode
        cases value with
        | none => exact hitem
        | some value =>
            rw [h.value?_eq hkeys hitem] at hnone
            cases hnone
  · intro hmem
    refine ⟨⟨rfl, _, hmem, rfl⟩, h.value?_eq_default hkeys fun value hvalue => ?_⟩
    cases value_unique hkeys hmem hvalue

theorem find?_count_eq_none_iff :
    (Key.all.find? fun key => 1 < w.uses.count key) = none ↔
      (items.filterMap Item.key?).Nodup := by
  have huses : w.uses = items.filterMap Item.key? := h.uses_eq
  rw [huses, List.nodup_iff_count_le_one, List.find?_eq_none]
  constructor
  · intro hall key
    simpa using hall key (by cases key <;> decide)
  · intro hall key _
    simpa using hall key

theorem refusal?_eq_none_iff : w.refusal? = none ↔ IsComplete items := by
  constructor
  · intro hnone
    rw [Words.refusal?] at hnone
    split at hnone
    · cases hnone
    next hinput =>
    split at hnone
    · cases hnone
    next hlacks =>
    have hkeys := h.find?_count_eq_none_iff.mp (Option.map_eq_none_iff.mp hnone)
    refine ⟨h.isSome_input_iff.mp (by simpa [Option.isSome_iff_ne_none] using hinput), hkeys, ?_⟩
    intro hmode
    exact List.find?_eq_none.mp hlacks .mode (by decide) ((h.lacksValue_mode_iff hkeys).mpr hmode)
  · intro hcomplete
    have hinput : w.input.isNone = false := by
      simpa using h.isSome_input_iff.mpr hcomplete.exists_input
    have hlacks : Key.all.find? w.lacksValue = none := by
      rw [List.find?_eq_none]
      intro key _ hlacks
      obtain rfl := eq_mode_of_lacksValue hlacks
      exact hcomplete.mode_valued ((h.lacksValue_mode_iff hcomplete.nodup_keys).mp hlacks)
    rw [Words.refusal?, hinput, hlacks, h.find?_count_eq_none_iff.mpr hcomplete.nodup_keys]
    rfl

end Words.Collects

/-! ## Configurations -/

theorem textOf_eq_ok_iff {value : Bytes} {text : List Char} :
    textOf value = .ok text ↔ value = encode text := by
  rw [textOf, ← Utf8.decode?_eq_some_iff]
  cases Utf8.decode? value <;> simp

theorem textOf_eq_error_iff {value : Bytes} {stop : Stop} :
    textOf value = .error stop ↔ stop = .notText ∧ ¬ IsText value := by
  rw [textOf, Utf8.isText_iff]
  cases Utf8.decode? value <;> simp [eq_comm]

/-- What is read as a number of pixels. -/
def IsLength (value : Bytes) : Prop :=
  ∃ text n, value = encode text ∧ Numeral.readUInt32 text = .ok n

theorem lengthOf_eq_error_notText_iff {value : Bytes} :
    lengthOf value = .error .notText ↔ ¬ IsText value := by
  rw [lengthOf, bind_eq_error_iff]
  constructor
  · rintro (hnot | ⟨text, -, herror⟩)
    · exact (textOf_eq_error_iff.mp hnot).2
    · obtain ⟨fault, -, hstop⟩ := mapError_eq_error_iff.mp herror
      cases hstop
  · intro hnot
    exact .inl (textOf_eq_error_iff.mpr ⟨rfl, hnot⟩)

theorem exists_lengthOf_eq_ok_iff {value : Bytes} :
    (∃ n, lengthOf value = .ok n) ↔ IsLength value := by
  simp only [lengthOf, bind_eq_ok_iff, textOf_eq_ok_iff, mapError_eq_ok_iff]
  exact exists_comm

theorem modeOf_eq_error_iff {value : Option Bytes} {stop : Stop} :
    modeOf value = .error stop ↔ stop = .notText ∧ ∃ v ∈ value, ¬ IsText v := by
  cases value with
  | none => simp [modeOf]
  | some value =>
      rw [modeOf, bind_eq_error_iff, textOf_eq_error_iff]
      simp [pure, Except.pure]

/-- The values are looked at one after the other. -/
theorem configure_result_eq (w : Words) :
    (configure w).result = do
      let _ ← textOf (w.input.getD [])
      let mode ← modeOf (w.value? .mode)
      let _ ← textOf ((w.value? .outputDirectory).getD [])
      let width ← lengthOf ((w.value? .width).getD [])
      let height ← lengthOf ((w.value? .height).getD [])
      return {
        input := ⟨w.input.getD []⟩
        mode := mode.1
        outputDirectory := ⟨(w.value? .outputDirectory).getD []⟩
        save := w.uses.contains .save
        size := ⟨width, height⟩ } := by
  rw [configure]
  cases textOf (w.input.getD []) with
  | error stop => rfl
  | ok text => cases modeOf (w.value? .mode) <;> rfl

/-- A step that fails in this way only, before others. -/
theorem bind_eq_notText_iff {α β : Type} {x : Except Stop α} {f : α → Except Stop β} {P : Prop}
    (hx : ∀ stop, x = .error stop → stop = .notText)
    (hf : ∀ a, x = .ok a → (f a = .error .notText ↔ P)) :
    (x >>= f) = .error .notText ↔ x = .error .notText ∨ P := by
  cases hcase : x with
  | error stop =>
      obtain rfl := hx stop hcase
      exact iff_of_true rfl (.inl rfl)
  | ok a => exact (hf a hcase).trans (by simp)

theorem configure_eq_notText_iff (w : Words) :
    (configure w).result = .error .notText ↔
      ¬ IsText (w.input.getD []) ∨ (∃ value ∈ w.value? .mode, ¬ IsText value) ∨
        ¬ IsText ((w.value? .outputDirectory).getD []) ∨
        ¬ IsText ((w.value? .width).getD []) ∨
        IsLength ((w.value? .width).getD []) ∧ ¬ IsText ((w.value? .height).getD []) := by
  have htext : ∀ {value : Bytes} stop, textOf value = .error stop → stop = .notText :=
    fun stop herror => (textOf_eq_error_iff.mp herror).1
  have hmode : ∀ {value : Option Bytes} stop, modeOf value = .error stop → stop = .notText :=
    fun stop herror => (modeOf_eq_error_iff.mp herror).1
  rw [configure_result_eq]
  refine (bind_eq_notText_iff htext fun _ _ => ?_).trans
    (or_congr_left (by simp [textOf_eq_error_iff]))
  refine (bind_eq_notText_iff hmode fun _ _ => ?_).trans
    (or_congr_left (by simp [modeOf_eq_error_iff]))
  refine (bind_eq_notText_iff htext fun _ _ => ?_).trans
    (or_congr_left (by simp [textOf_eq_error_iff]))
  rw [bind_eq_error_iff, lengthOf_eq_error_notText_iff, ← exists_lengthOf_eq_ok_iff,
    ← exists_and_right]
  refine or_congr_right (exists_congr fun width => and_congr_right fun _ => ?_)
  rw [bind_eq_error_iff, lengthOf_eq_error_notText_iff]
  simp [pure, Except.pure]

theorem paths_of_configure {w : Words} {config : Config} (h : (configure w).result = .ok config) :
    config.input = ⟨w.input.getD []⟩ ∧
      config.outputDirectory = ⟨(w.value? .outputDirectory).getD []⟩ := by
  rw [configure_result_eq] at h
  simp only [bind_eq_ok_iff] at h
  obtain ⟨-, -, mode, -, -, -, width, -, height, -, hconfig⟩ := h
  cases hconfig
  exact ⟨rfl, rfl⟩

/-- A path or a value is none of the texts that they all have to be. The height is left alone
unless the width is a number. -/
def LacksText (items : List Item) : Prop :=
  (∃ path, .input path ∈ items ∧ ¬ IsText path) ∨
    (∃ key ∈ [Key.mode, .outputDirectory, .width], ∃ value,
      .use key (some value) ∈ items ∧ ¬ IsText value) ∨
    ∃ value, .use .height (some value) ∈ items ∧ ¬ IsText value ∧
      ∀ width, .use .width (some width) ∈ items → IsLength width

theorem not_isText_getD_iff {value : Option Bytes} :
    ¬ IsText (value.getD []) ↔ ∃ v ∈ value, ¬ IsText v := by
  cases value with
  | none => exact iff_of_false (fun hnot => hnot ⟨[], rfl⟩) (by simp)
  | some value => simp

namespace Words.Collects

variable {calledAs : String} {items : List Item} {w : Words}
  (h : (Words.start calledAs).Collects items w) (hcomplete : IsComplete items)
include h hcomplete

/-- Values that are not given are texts. -/
theorem value?_isText_iff {key : Key} :
    (∃ value ∈ w.value? key, ¬ IsText value) ↔
      ∃ value, .use key (some value) ∈ items ∧ ¬ IsText value := by
  by_cases hgiven : ∃ value, .use key (some value) ∈ items
  · obtain ⟨value, hvalue⟩ := hgiven
    rw [h.value?_eq hcomplete.nodup_keys hvalue]
    constructor
    · rintro ⟨_, ⟨⟩, hnot⟩
      exact ⟨value, hvalue, hnot⟩
    · rintro ⟨value', hvalue', hnot⟩
      obtain ⟨⟩ := value_unique hcomplete.nodup_keys hvalue hvalue'
      exact ⟨value, rfl, hnot⟩
  · have hnone : ∀ value, .use key (some value) ∉ items := fun value hvalue =>
      hgiven ⟨value, hvalue⟩
    rw [h.value?_eq_default hcomplete.nodup_keys hnone]
    constructor
    · rintro ⟨value, hvalue, hnot⟩
      obtain ⟨text, -, rfl⟩ := Option.map_eq_some_iff.mp hvalue
      exact absurd ⟨_, rfl⟩ hnot
    · rintro ⟨value, hvalue, -⟩
      exact absurd hvalue (hnone value)

theorem isLength_width_iff :
    IsLength ((w.value? .width).getD []) ↔
      ∀ width, .use .width (some width) ∈ items → IsLength width := by
  by_cases hgiven : ∃ value, .use .width (some value) ∈ items
  · obtain ⟨value, hvalue⟩ := hgiven
    rw [h.value?_eq hcomplete.nodup_keys hvalue]
    constructor
    · intro hlength width hwidth
      obtain ⟨⟩ := value_unique hcomplete.nodup_keys hvalue hwidth
      exact hlength
    · intro hlength
      exact hlength value hvalue
  · have hnone : ∀ value, .use .width (some value) ∉ items := fun value hvalue =>
      hgiven ⟨value, hvalue⟩
    rw [h.value?_eq_default hcomplete.nodup_keys hnone]
    refine iff_of_true ⟨"1600".toList, 1600, rfl, by decide⟩ fun width hwidth => ?_
    exact absurd hwidth (hnone width)

theorem inputs_eq : items.filterMap Item.input? = [w.input.getD []] := by
  have hinput : w.input.toList = items.filterMap Item.input? := h.input_eq
  obtain ⟨path, hpath⟩ :=
    Option.isSome_iff_exists.mp (h.isSome_input_iff.mpr hcomplete.exists_input)
  rw [← hinput, hpath]
  rfl

theorem configure_eq_notText_iff :
    (configure w).result = .error .notText ↔ LacksText items := by
  have hinput : ¬ IsText (w.input.getD []) ↔ ∃ path, .input path ∈ items ∧ ¬ IsText path := by
    simp [← mem_inputs_iff, h.inputs_eq hcomplete]
  rw [CommandLine.configure_eq_notText_iff, LacksText, hinput, h.isLength_width_iff hcomplete]
  simp only [not_isText_getD_iff, h.value?_isText_iff hcomplete]
  refine or_congr_right ?_
  simp only [List.mem_cons, List.not_mem_nil, or_false, or_and_right, exists_or, exists_eq_left,
    or_assoc]
  refine or_congr_right (or_congr_right (or_congr_right ?_))
  rw [and_comm, ← exists_and_right]
  simp only [and_assoc]

end Words.Collects

/-! ## Texts -/

/-- The bytes of an item, if it has any. -/
def Item.bytes? : Item → Option Bytes
  | .input path => some path
  | .use _ value => value

theorem isText_longWord {more : Nat} {name : Bytes} {attached : Option Bytes} :
    IsText (longWord more name attached) ↔ IsText name ∧ ∀ value ∈ attached, IsText value := by
  have hdashes : ∀ b ∈ List.replicate (more + 2) dash, b.toNat < 0x80 := by
    intro b hb
    rw [List.eq_of_mem_replicate hb]
    decide
  rw [longWord, Utf8.isText_append_of_ascii hdashes]
  cases attached with
  | none => simp [Words.attachment]
  | some value =>
      rw [Words.attachment, Utf8.isText_append_ascii (by decide : equalsSign.toNat < 0x80)]
      simp

theorem isText_assigned {equals : Nat} {value : Bytes} :
    IsText (assigned equals value) ↔ IsText value := by
  refine Utf8.isText_append_of_ascii fun b hb => ?_
  rw [List.eq_of_mem_replicate hb]
  decide

theorem isText_letterWord {count : Nat} {letters : Bytes} :
    IsText (letterWord count letters) ↔ IsText letters := by
  refine (Utf8.isText_cons_ascii (by decide)).trans (Utf8.isText_append_of_ascii fun b hb => ?_)
  rw [List.eq_of_mem_replicate hb]
  decide

/-- In a text there are texts. -/
theorem Says.isText {word : Bytes} {said : List Item} {pending? : Option Key}
    (h : Says word said pending?) (hword : IsText word) :
    ∀ item ∈ said, ∀ bytes ∈ item.bytes?, IsText bytes := by
  have hsaves : ∀ count, ∀ item ∈ Item.saves count, ∀ bytes ∈ item.bytes?, IsText bytes := by
    intro count item hitem bytes hbytes
    rw [List.eq_of_mem_replicate hitem] at hbytes
    cases hbytes
  cases h with
  | flag => exact hsaves 1
  | option => exact nofun
  | optionValue more equals takesValue hvalue =>
      have htext := isText_assigned.mp ((isText_longWord.mp hword).2 _ rfl)
      rintro item hitem bytes hbytes
      obtain rfl := List.mem_singleton.mp hitem
      exact Option.some.inj hbytes ▸ htext
  | flags count => exact hsaves _
  | letter count => exact hsaves _
  | letterValue count equals takesValue hletter hne hvalue =>
      obtain ⟨b, hb, hascii, -, -⟩ := Words.exists_encode_letter hletter
      rw [isText_letterWord, hb, List.singleton_append, Utf8.isText_cons_ascii hascii,
        isText_assigned] at hword
      intro item hitem bytes hbytes
      rcases List.mem_append.mp hitem with hsave | hvalue
      · exact hsaves count item hsave bytes hbytes
      · obtain rfl := List.mem_singleton.mp hvalue
        exact Option.some.inj hbytes ▸ hword

theorem StopsAt.ne_notText {program : String} {word : Bytes} {rest : List Bytes} {stop : Stop}
    (h : StopsAt program word rest stop) (hwords : ∀ w ∈ word :: rest, IsText w) :
    stop ≠ .notText := by
  cases h with
  | notText more attached hname hword hnot =>
      rw [List.forall_mem_cons, isText_longWord] at hwords
      exact absurd ⟨hwords.1.1, hwords.2⟩ hnot
  | help | version | unknownName | helpLetter | versionLetter | unknownLetter => exact nofun

/-- From texts nothing is read that is none. -/
theorem Reads.isText {program : String} {plainOnly hasInput : Bool} {words : List Bytes}
    {items : List Item} {stop? : Option Stop}
    (h : Reads program plainOnly hasInput words items stop?)
    (hwords : ∀ word ∈ words, IsText word) :
    stop? ≠ some .notText ∧ ∀ item ∈ items, ∀ bytes ∈ item.bytes?, IsText bytes := by
  induction h with
  | nil => exact ⟨nofun, nofun⟩
  | input hpath hrest ih =>
      rw [List.forall_mem_cons] at hwords
      obtain ⟨hstop, hitems⟩ := ih hwords.2
      refine ⟨hstop, List.forall_mem_cons.mpr ⟨?_, hitems⟩⟩
      rintro bytes ⟨⟩
      exact hwords.1
  | secondInput => exact ⟨nofun, nofun⟩
  | dashes hrest ih => exact ih (List.forall_mem_cons.mp hwords).2
  | whole hword hrest ih =>
      rw [List.forall_mem_cons] at hwords
      obtain ⟨hstop, hitems⟩ := ih hwords.2
      exact ⟨hstop, List.forall_mem_append.mpr ⟨hword.isText hwords.1, hitems⟩⟩
  | valued hword hvalue hrest ih =>
      rw [List.forall_mem_cons, List.forall_mem_cons] at hwords
      obtain ⟨hstop, hitems⟩ := ih hwords.2.2
      refine ⟨hstop, List.forall_mem_append.mpr ⟨hword.isText hwords.1,
        List.forall_mem_cons.mpr ⟨?_, hitems⟩⟩⟩
      rintro bytes ⟨⟩
      exact hwords.2.1
  | unvalued hword hnext hrest ih =>
      rw [List.forall_mem_cons] at hwords
      obtain ⟨hstop, hitems⟩ := ih hwords.2
      exact ⟨hstop, List.forall_mem_append.mpr ⟨hword.isText hwords.1,
        List.forall_mem_cons.mpr ⟨nofun, hitems⟩⟩⟩
  | stops hstop => exact ⟨fun heq => hstop.ne_notText hwords (Option.some.inj heq), nofun⟩

/-! ## Main results -/

/-- The lines that the program aborts on. -/
def Aborts (program : String) (words : List Bytes) : Prop :=
  (∃ items, Reads program false false words items (some .notText)) ∨
    ∃ items, Reads program false false words items none ∧ IsComplete items ∧ LacksText items

theorem isBefore_start (program : String) (words : List Bytes) :
    (Words.start program).IsBefore program false false words := ⟨rfl, rfl, rfl, .inl rfl⟩

section Lines

variable {arguments : List Bytes} {items : List Item}

theorem parse_of_stop {stop : Stop}
    (h : Reads (calledAs (arguments.headD [])) false false (arguments.drop 1) items (some stop)) :
    (parse arguments).result = .error stop := by
  have hstop := h.ends (isBefore_start _ _)
  rw [Words.Ends] at hstop
  simp only [parse, hstop]

theorem parse_of_reads
    (h : Reads (calledAs (arguments.headD [])) false false (arguments.drop 1) items none) :
    ∃ w : Words, (Words.start (calledAs (arguments.headD []))).Collects items w ∧
      (IsComplete items → parse arguments = configure w) ∧
      (¬ IsComplete items → ∃ refusal, (parse arguments).result = .error (.refused refusal)) := by
  obtain ⟨w, hread, hitems⟩ := h.ends (isBefore_start _ _)
  refine ⟨w, hitems, fun hcomplete => ?_, fun hnot => ?_⟩
  · simp only [parse, hread, hitems.refusal?_eq_none_iff.mpr hcomplete]
  · cases hrefusal : w.refusal? with
    | none => exact absurd (hitems.refusal?_eq_none_iff.mp hrefusal) hnot
    | some refusal =>
        refine ⟨refusal, ?_⟩
        simp only [parse, hread, hrefusal]

theorem parse_eq_notText_iff (arguments : List Bytes) :
    (parse arguments).result = .error .notText ↔
      Aborts (calledAs (arguments.headD [])) (arguments.drop 1) := by
  constructor
  · intro hnot
    obtain ⟨items, stop?, hreads⟩ :=
      exists_reads (calledAs (arguments.headD [])) false false (arguments.drop 1)
    cases stop? with
    | some stop =>
        obtain ⟨⟩ := (parse_of_stop hreads).symm.trans hnot
        exact .inl ⟨items, hreads⟩
    | none =>
        obtain ⟨w, hitems, hconfigure, hrefused⟩ := parse_of_reads hreads
        by_cases hcomplete : IsComplete items
        · rw [hconfigure hcomplete] at hnot
          exact .inr ⟨items, hreads, hcomplete, (hitems.configure_eq_notText_iff hcomplete).mp hnot⟩
        · obtain ⟨refusal, hrefusal⟩ := hrefused hcomplete
          cases hrefusal.symm.trans hnot
  · rintro (⟨items, hreads⟩ | ⟨items, hreads, hcomplete, hlacks⟩)
    · exact parse_of_stop hreads
    · obtain ⟨w, hitems, hconfigure, -⟩ := parse_of_reads hreads
      rw [hconfigure hcomplete]
      exact (hitems.configure_eq_notText_iff hcomplete).mpr hlacks

/-- Nothing but bytes that are no text makes the program abort. -/
theorem not_aborts_of_isText {program : String} {words : List Bytes}
    (hwords : ∀ word ∈ words, IsText word) : ¬ Aborts program words := by
  rintro (⟨items, hreads⟩ | ⟨items, hreads, -, hlacks⟩)
  · exact (hreads.isText hwords).1 rfl
  · have hitems := (hreads.isText hwords).2
    rcases hlacks with ⟨path, hpath, hnot⟩ | ⟨key, -, value, hvalue, hnot⟩ |
      ⟨value, hvalue, hnot, -⟩
    · exact hnot (hitems _ hpath path rfl)
    · exact hnot (hitems _ hvalue value rfl)
    · exact hnot (hitems _ hvalue value rfl)

end Lines

/-- The paths are those of the words. -/
structure HasPathsOf (config : Config) (items : List Item) : Prop where
  input_eq : items.filterMap Item.input? = [config.input.bytes]
  outputDirectory_eq : ∀ directory, .use .outputDirectory (some directory) ∈ items →
    config.outputDirectory.bytes = directory
  outputDirectory_default : (∀ directory, .use .outputDirectory (some directory) ∉ items) →
    config.outputDirectory.bytes = encode "./vector_api_test_plots/".toList

/-- The program aborts on certain arguments that are no texts, and on no others. What it accepts is
read by the rules, and the paths are taken over byte by byte. -/
theorem parse_arguments_spec (arguments : List Bytes) :
    let program := calledAs (arguments.headD [])
    let words := arguments.drop 1
    ((parse arguments).result = .error .notText ↔ Aborts program words) ∧
      ((∀ word ∈ words, IsText word) → (parse arguments).result ≠ .error .notText) ∧
      ∀ config, (parse arguments).result = .ok config →
        ∃ items, Reads program false false words items none ∧ IsComplete items ∧
          HasPathsOf config items := by
  intro program words
  refine ⟨parse_eq_notText_iff arguments, fun hwords hnot => ?_, fun config hconfig => ?_⟩
  · exact not_aborts_of_isText hwords ((parse_eq_notText_iff arguments).mp hnot)
  obtain ⟨items, stop?, hreads⟩ := exists_reads program false false words
  cases stop? with
  | some stop => cases (parse_of_stop hreads).symm.trans hconfig
  | none =>
      obtain ⟨w, hitems, hconfigure, hrefused⟩ := parse_of_reads hreads
      by_cases hcomplete : IsComplete items
      · rw [hconfigure hcomplete] at hconfig
        obtain ⟨hinput, houtput⟩ := paths_of_configure hconfig
        refine ⟨items, hreads, hcomplete, ⟨?_, fun directory hdirectory => ?_, fun hnone => ?_⟩⟩
        · rw [hinput, hitems.inputs_eq hcomplete]
        · rw [houtput, hitems.value?_eq hcomplete.nodup_keys hdirectory]
          rfl
        · rw [houtput, hitems.value?_eq_default hcomplete.nodup_keys hnone]
          rfl
      · obtain ⟨refusal, hrefusal⟩ := hrefused hcomplete
        cases hrefusal.symm.trans hconfig

/-- A directory attached to two letters and an input that looks like an option are taken as they
are; a name that is no text ends the program. -/
theorem parse_arguments_spec_pathsAndBrokenName :
    let accepted := ["matmul_plot", "-sd=plots", "--", "-x.csv"].map fun word => encode word.toList
    let broken := [encode "matmul_plot".toList, 0xFF :: encode ".csv".toList]
    let config : Config :=
      ⟨⟨encode "-x.csv".toList⟩, .prompt, ⟨encode "plots".toList⟩, true, ⟨1600, 800⟩⟩
    ((parse accepted).result = .ok config ∧
      ∃ items, Reads "matmul_plot" false false (accepted.drop 1) items none ∧ IsComplete items ∧
        HasPathsOf config items) ∧
      (parse accepted).result ≠ .error .notText ∧
      (parse broken).result = .error .notText ∧ Aborts "matmul_plot" (broken.drop 1) := by
  intro accepted broken config
  have haccepted : (parse accepted).result = .ok config := by rfl
  have hbroken : (parse broken).result = .error .notText := by rfl
  exact ⟨⟨haccepted, (parse_arguments_spec accepted).2.2 config haccepted⟩,
    (parse_arguments_spec accepted).2.1 (by decide), hbroken,
    (parse_arguments_spec broken).1.mp hbroken⟩

end TimingChart.CommandLine
