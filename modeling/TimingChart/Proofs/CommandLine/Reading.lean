import TimingChart.Proofs.CommandLine.Writing
import TimingChart.Proofs.Text.Trimming

/-! # Reading words

Each part of a request is followed through the reader in every way it can be written. The order of
the parts leaves no trace but the order of what has been collected. -/

namespace TimingChart

/-- What begins with an ASCII byte is the text that begins with this character. -/
theorem Utf8.head?_of_head?_encode {text : List Char} {b : UInt8} (hb : b.toNat < 0x80)
    (h : (encode text).head? = some b) : text.head? = some (Char.ofNat b.toNat) := by
  obtain ⟨rest, hrest⟩ := List.head?_eq_some_iff.mp h
  have hparts := parts_encode text
  rw [hrest, parts_cons_ascii hb] at hparts
  cases text with
  | nil => cases hparts
  | cons c text =>
      obtain ⟨hc, -⟩ := List.cons.inj hparts
      rw [List.head?_cons, hc]

theorem Utf8.encode_ne_nil {text : List Char} (h : text ≠ []) : encode text ≠ [] := by
  intro hnil
  have hdecoded := decode?_encode text
  rw [hnil] at hdecoded
  exact h (Option.some.inj hdecoded).symm

namespace CommandLine

open Utf8 (encode)

/-! ## Words one by one -/

namespace Words

variable {w : Words}

theorem head?_encode_ne_dash {word : List Char} (h : word.head? ≠ some '-') :
    (encode word).head? ≠ some dash := by
  intro hdash
  exact h (Utf8.head?_of_head?_encode (by decide) hdash)

/-- Equals signs are removed only where there are any. -/
theorem dropWhile_encode {value : List Char} (h : IsAttachable value) :
    (encode value).dropWhile (· = equalsSign) = encode value := by
  cases hbytes : encode value with
  | nil => rfl
  | cons b rest =>
      apply List.dropWhile_cons_of_neg
      intro hb
      have hhead : (encode value).head? = some equalsSign := by
        rw [hbytes, List.head?_cons, of_decide_eq_true hb]
      exact h (Utf8.head?_of_head?_encode (by decide) hhead)

theorem read_plainWord (hplain : w.plainOnly = false) {word : List Char} (h : IsPlainWord word)
    (rest : List Bytes) : w.read (encode word) rest = w.plainOrValue (encode word) := by
  rcases h with rfl | hhead
  · simp only [read, hplain]
    rfl
  · have hdash := head?_encode_ne_dash hhead
    have hword : encode word ≠ [dash, dash] := by
      intro heq
      simp [heq] at hdash
    simp only [read, hplain, Bool.false_eq_true, if_false, if_neg hword]
    split
    · next first second others heq =>
      have hfirst : first ≠ dash := by
        intro hfirst
        simp [heq, hfirst] at hdash
      rw [if_neg hfirst]
    · rfl

theorem long_bytes (key : Key) : encode key.long.toList ≠ [] ∧
    ∀ b ∈ encode key.long.toList, b ≠ dash ∧ b ≠ equalsSign := by
  cases key <;> decide

theorem find?_long (key : Key) :
    (Key.all.find? fun other => encode key.long.toList = encode other.long.toList) = some key := by
  cases key <;> decide

/-- What follows a long name in its word. -/
def attachment (attached : Option Bytes) : Bytes :=
  match attached with
  | some value => equalsSign :: value
  | none => []

/-- A name behind two dashes or more. -/
def longWord (more : Nat) (name : Bytes) (attached : Option Bytes) : Bytes :=
  List.replicate (more + 2) dash ++ (name ++ attachment attached)

/-- A name that begins with no dash is found behind all dashes. -/
theorem long_longWord (w : Words) (more : Nat) {name : Bytes} (hdash : name.head? ≠ some dash)
    (hequals : equalsSign ∉ name) (attached : Option Bytes) (rest : List Bytes) :
    w.long (longWord more name attached) rest =
      match Key.all.find? fun key => name = encode key.long.toList with
      | some key => .ok (if key.takesValue then w.option key attached else w.addUse key)
      | none =>
        if name = encode "help".toList then .error (.refused (.help w.calledAs))
        else if name = encode "version".toList then .error (.refused .version)
        else .error (unknownName name rest) := by
  have hbody : (longWord more name attached).dropWhile (· = dash) =
      name ++ attachment attached := by
    rw [longWord, List.dropWhile_append_of_pos (by simp)]
    cases name with
    | nil => cases attached <;> rfl
    | cons b name =>
        rw [List.head?_cons] at hdash
        rw [List.cons_append, List.dropWhile_cons_of_neg (by simpa using hdash)]
  have hequals' : ∀ b ∈ name, decide (b ≠ equalsSign) = true := by
    intro b hb
    refine decide_eq_true ?_
    rintro rfl
    exact hequals hb
  have hname : (name ++ attachment attached).takeWhile (· ≠ equalsSign) = name := by
    rw [List.takeWhile_append_of_pos hequals']
    cases attached <;> simp [attachment]
  have hvalue : (if equalsSign ∈ name ++ attachment attached then
      some (((name ++ attachment attached).dropWhile (· ≠ equalsSign)).drop 1)
      else none) = attached := by
    rw [List.dropWhile_append_of_pos hequals']
    cases attached with
    | some value => simp [attachment]
    | none => simp [attachment, hequals]
  cases hfind : Key.all.find? fun key => decide (name = encode key.long.toList) with
  | none => simp only [long, hbody, hname, hfind]
  | some key => simp only [long, hbody, hname, hvalue, hfind]

theorem head?_long_ne_dash (key : Key) : (encode key.long.toList).head? ≠ some dash := by
  cases key <;> decide

/-- A long name, alone or before an equals sign and a value. -/
theorem long_named (w : Words) (more : Nat) (key : Key) (attached : Option Bytes)
    (rest : List Bytes) :
    w.long (longWord more (encode key.long.toList) attached) rest =
      .ok (if key.takesValue then w.option key attached else w.addUse key) := by
  have hequals : equalsSign ∉ encode key.long.toList := fun hmem =>
    ((long_bytes key).2 _ hmem).2 rfl
  rw [long_longWord w more (head?_long_ne_dash key) hequals, find?_long]

/-- The letter of an option or of the flag is a single byte. -/
theorem exists_encode_letter {key : Key} {letter : Char} (hletter : key.short? = some letter) :
    ∃ b : UInt8, encode [letter] = [b] ∧ b.toNat < 0x80 ∧ b ≠ dash ∧
      Char.ofNat b.toNat = letter := by
  cases key <;> cases hletter
  · exact ⟨0x6D, rfl, by decide, by decide, rfl⟩
  · exact ⟨0x64, rfl, by decide, by decide, rfl⟩
  · exact ⟨0x73, rfl, by decide, by decide, rfl⟩

/-- A letter, before other letters or a value. -/
theorem letters_named (w : Words) {key : Key} {letter : Char} (hletter : key.short? = some letter)
    (others : Bytes) :
    w.letters (encode [letter] ++ others) =
      if key.takesValue then .ok (w.option key (if others.isEmpty then none else some others))
      else (w.addUse key).letters others := by
  obtain ⟨b, hbytes, hb, -, hchar⟩ := exists_encode_letter hletter
  have hshown : (Utf8.decodeLossy (b :: others)).headD '-' = letter := by
    rw [Utf8.decodeLossy, Utf8.parts_cons_ascii hb, hchar]
    rfl
  have hfind : (Key.all.find? fun other => other.short? = some letter) = some key := by
    cases key <;> cases hletter <;> decide
  rw [hbytes, List.singleton_append, letters]
  simp only [hshown, hfind]

/-- A word that begins with two dashes and goes on. -/
theorem read_dashes (hplain : w.plainOnly = false) {name : Bytes} (hne : name ≠ [])
    (rest : List Bytes) :
    w.read (dash :: dash :: name) rest =
      { w with pending := none }.long (dash :: dash :: name) rest := by
  have hword : dash :: dash :: name ≠ [dash, dash] := by simpa using hne
  simp only [read, hplain, Bool.false_eq_true, if_false, if_neg hword, if_true]

/-- A word that begins with a single dash and goes on. -/
theorem read_dash (hplain : w.plainOnly = false) {b : UInt8} (hb : b ≠ dash) (others : Bytes)
    (rest : List Bytes) :
    w.read (dash :: b :: others) rest = { w with pending := none }.letters (b :: others) := by
  have hword : dash :: b :: others ≠ [dash, dash] := by simp [hb]
  simp only [read, hplain, Bool.false_eq_true, if_false, if_neg hword, if_true, if_neg hb]

theorem read_letters (hplain : w.plainOnly = false) {key : Key} {letter : Char}
    (hletter : key.short? = some letter) (text : List Char) (rest : List Bytes) :
    w.read (encode ('-' :: letter :: text)) rest =
      { w with pending := none }.letters (encode [letter] ++ encode text) := by
  obtain ⟨b, hbytes, -, hb, -⟩ := exists_encode_letter hletter
  have hword : encode ('-' :: letter :: text) = dash :: (encode [letter] ++ encode text) := by
    rw [encode, encode, encode, ← List.flatMap_append]
    rfl
  rw [hword, hbytes]
  exact read_dash hplain hb (encode text) rest

/-! ## Parts -/

/-- The reader when it has read a part of a request. -/
def enter (w : Words) : Part → Words
  | .input path => { w with input := some (encode path) }
  | .option key _ value => (w.addUse key).addValue key (encode value)
  | .save => w.addUse .save

/-- A reader that neither awaits a value nor takes all words as they are. -/
structure IsReady (w : Words) : Prop where
  plainOnly_eq : w.plainOnly = false
  pending_eq : w.pending = none

theorem IsReady.enter (h : w.IsReady) (part : Part) : (w.enter part).IsReady := by
  cases part with
  | input path => exact ⟨h.plainOnly_eq, h.pending_eq⟩
  | option key takesValue value => exact ⟨h.plainOnly_eq, rfl⟩
  | save => exact ⟨h.plainOnly_eq, h.pending_eq⟩

theorem IsReady.forgetPending (h : w.IsReady) : { w with pending := none } = w := by
  rw [← h.pending_eq]

theorem readAll_cons {next : Words} {word : Bytes} {rest : List Bytes}
    (h : w.read word rest = .ok next) : w.readAll (word :: rest) = next.readAll rest := by
  rw [readAll, h]
  rfl

/-- A name without a value, either of an option that now awaits one or of the flag. -/
theorem read_name (h : w.IsReady) {key : Key} {name : List Char} (hname : key.IsNamedBy name)
    (rest : List Bytes) :
    w.read (encode name) rest =
      .ok (if key.takesValue then w.option key none else w.addUse key) := by
  cases hname with
  | long =>
      have hlong := long_named w 0 key none rest
      rw [longWord, attachment, List.append_nil] at hlong
      have hread := read_dashes h.plainOnly_eq (long_bytes key).1 rest
      rw [h.forgetPending] at hread
      exact hread.trans hlong
  | short letter hletter =>
      rw [read_letters h.plainOnly_eq hletter, h.forgetPending, letters_named w hletter]
      cases key.takesValue <;> rfl

/-- A value in the word of its option's letter, with an equals sign in front of it or without. -/
theorem read_letter_value (h : w.IsReady) {key : Key} (takesValue : key.takesValue) {letter : Char}
    (hletter : key.short? = some letter) {value text : List Char} (hne : encode text ≠ [])
    (hvalue : (encode text).dropWhile (· = equalsSign) = encode value) (rest : List Bytes) :
    w.read (encode ('-' :: letter :: text)) rest =
      .ok ((w.addUse key).addValue key (encode value)) := by
  rw [read_letters h.plainOnly_eq hletter, h.forgetPending, letters_named w hletter,
    if_pos takesValue, if_neg (by simpa using hne), option, hvalue]

/-- The words for an option with a value are read as this value. -/
theorem readAll_option (h : w.IsReady) {key : Key} (takesValue : key.takesValue)
    {value : List Char} {words : List (List Char)} (hwords : key.IsGivenBy value words)
    (rest : List Bytes) :
    w.readAll (words.map encode ++ rest) =
      ((w.addUse key).addValue key (encode value)).readAll rest := by
  cases hwords with
  | separate name hname hvalue =>
      have hnext : (w.option key none).plainOnly = false := h.plainOnly_eq
      rw [List.map_cons, List.cons_append, readAll_cons (read_name h hname _), if_pos takesValue,
        List.map_singleton, List.singleton_append, readAll_cons (read_plainWord hnext hvalue rest)]
      rfl
  | long hvalue =>
      have hword : encode ("--".toList ++ key.long.toList ++ '=' :: value) =
          longWord 0 (encode key.long.toList) (some (encode value)) := by
        rw [encode, List.flatMap_append, List.flatMap_append, List.append_assoc]
        rfl
      have hne : encode key.long.toList ++ attachment (some (encode value)) ≠ [] :=
        List.append_ne_nil_of_left_ne_nil (long_bytes key).1 _
      have hlong := long_named w 0 key (some (encode value)) rest
      rw [if_pos takesValue, option, dropWhile_encode hvalue] at hlong
      have hread := read_dashes h.plainOnly_eq hne rest
      rw [h.forgetPending] at hread
      rw [List.map_singleton, List.singleton_append]
      exact readAll_cons (hword ▸ hread.trans hlong)
  | short letter hletter hne hvalue =>
      rw [List.map_singleton, List.singleton_append]
      exact readAll_cons (read_letter_value h takesValue hletter (Utf8.encode_ne_nil hne)
        (dropWhile_encode hvalue) rest)
  | shortEquals letter hletter hne hvalue =>
      have hdrop : (encode ('=' :: value)).dropWhile (· = equalsSign) = encode value :=
        dropWhile_encode hvalue
      rw [List.map_singleton, List.singleton_append]
      exact readAll_cons (read_letter_value h takesValue hletter
        (Utf8.encode_ne_nil (List.cons_ne_nil '=' value)) hdrop rest)

theorem read_input (h : w.IsReady) (hinput : w.input = none) {path : List Char}
    (hpath : IsPlainWord path) (rest : List Bytes) :
    w.read (encode path) rest = .ok { w with input := some (encode path) } := by
  rw [read_plainWord h.plainOnly_eq hpath]
  simp only [plainOrValue, h.pending_eq, plain, hinput]

/-- The words for a part of a request are read as this part. -/
theorem readAll_part (h : w.IsReady) {part : Part} {words : List (List Char)}
    (hwords : part.IsWritten words) (hinput : part.input?.isSome → w.input = none)
    (rest : List Bytes) :
    w.readAll (words.map encode ++ rest) = (w.enter part).readAll rest := by
  cases hwords with
  | input path hpath => exact readAll_cons (read_input h (hinput rfl) hpath rest)
  | option key takesValue value words hwords => exact readAll_option h takesValue hwords rest
  | save word hword => exact readAll_cons (read_name h hword rest)

/-! ## Whole command lines -/

/-- The words read so far hold these parts of a request, in whatever order they came. -/
structure Holds (w : Words) (parts : List Part) : Prop where
  input_perm : w.input.toList.Perm ((parts.filterMap Part.input?).map encode)
  uses_perm : w.uses.Perm (parts.filterMap Part.key?)
  values_perm : w.values.Perm (parts.filterMap Part.value?)

theorem holds_start (calledAs : String) : (start calledAs).Holds [] := ⟨.refl _, .refl _, .refl _⟩

theorem Holds.perm {parts parts' : List Part} (h : w.Holds parts) (hparts : parts.Perm parts') :
    w.Holds parts' where
  input_perm := h.input_perm.trans ((hparts.filterMap _).map _)
  uses_perm := h.uses_perm.trans (hparts.filterMap _)
  values_perm := h.values_perm.trans (hparts.filterMap _)

theorem Holds.enter {parts : List Part} (h : w.Holds parts) {part : Part}
    (hinput : part.input?.isSome → w.input = none) : (w.enter part).Holds (part :: parts) := by
  obtain ⟨hinputs, huses, hvalues⟩ := h
  cases part with
  | input path =>
      rw [hinput rfl] at hinputs
      exact ⟨hinputs.cons _, huses, hvalues⟩
  | option key takesValue value =>
      exact ⟨hinputs, (List.perm_append_singleton _ _).trans (huses.cons _),
        (List.perm_append_singleton _ _).trans (hvalues.cons _)⟩
  | save => exact ⟨hinputs, (List.perm_append_singleton _ _).trans (huses.cons _), hvalues⟩

/-- Where there is one input at most, none has been read before it. -/
theorem Holds.input_eq_none {parts rest : List Part} {part : Part} (h : w.Holds parts)
    (hone : ((parts ++ part :: rest).filterMap Part.input?).length ≤ 1)
    (hpart : part.input?.isSome) : w.input = none := by
  obtain ⟨path, hpath⟩ := Option.isSome_iff_exists.mp hpart
  have hlength := h.input_perm.length_eq
  rw [List.filterMap_append, List.filterMap_cons_some hpath, List.length_append,
    List.length_cons] at hone
  rw [List.length_map] at hlength
  cases hinput : w.input with
  | none => rfl
  | some input =>
      rw [hinput] at hlength
      simp only [Option.toList_some, List.length_singleton] at hlength
      omega

/-- Two dashes and a last word, which is the input whatever it looks like. -/
theorem readAll_last (h : w.IsReady) (hinput : w.input = none) (path : List Char) :
    w.readAll (List.map encode [['-', '-'], path]) =
      .ok { w.enter (.input path) with plainOnly := true } := by
  have hdashes : ∀ rest, w.read (encode ['-', '-']) rest = .ok { w with plainOnly := true } := by
    intro rest
    simp only [read, h.plainOnly_eq]
    rfl
  have hpath : ∀ rest, { w with plainOnly := true }.read (encode path) rest =
      .ok { w.enter (.input path) with plainOnly := true } := by
    intro rest
    simp only [read, if_true, plain, hinput]
    rfl
  rw [List.map_cons, List.map_singleton, readAll_cons (hdashes _), readAll_cons (hpath _)]
  rfl

theorem Holds.setPlainOnly {parts : List Part} (h : w.Holds parts) :
    { w with plainOnly := true }.Holds parts := ⟨h.input_perm, h.uses_perm, h.values_perm⟩

/-- Groups of words for parts of a request are read as these parts. -/
theorem readAll_groups {parts : List Part} {groups : List (List (List Char))}
    (hgroups : List.Forall₂ Part.IsWritten parts groups) {before : List Part} (hready : w.IsReady)
    (hbefore : w.Holds before) (hone : ((before ++ parts).filterMap Part.input?).length ≤ 1) :
    ∃ next : Words, next.IsReady ∧ next.Holds (before ++ parts) ∧
      ∀ rest, w.readAll (groups.flatten.map encode ++ rest) = next.readAll rest := by
  -- each group moves one part from those ahead to those that are held
  induction hgroups generalizing w before with
  | nil => exact ⟨w, hready, by rwa [List.append_nil], fun rest => rfl⟩
  | @cons part words parts groups hwords hgroups ih =>
      have hinput := hbefore.input_eq_none hone
      have hparts : (before ++ part :: parts).Perm (part :: before ++ parts) := List.perm_middle
      obtain ⟨next, hnext, hholds, hread⟩ := ih (hready.enter part) (hbefore.enter hinput)
        (by rwa [(hparts.filterMap _).length_eq] at hone)
      refine ⟨next, hnext, hholds.perm hparts.symm, fun rest => ?_⟩
      rw [List.flatten_cons, List.map_append, List.append_assoc,
        readAll_part hready hwords hinput, hread]

end Words

end CommandLine

end TimingChart
