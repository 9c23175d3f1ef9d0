import TimingChart.Proofs.CommandLine.Reading
import TimingChart.Proofs.Text.Decoding

/-! # Arguments

Any list of arguments, texts or not, is read by the forms of its words: each says what is used, with
which value, or ends the reading. The rules are those of a grammar; they do not take words apart. -/

namespace TimingChart.CommandLine

open Utf8 (encode IsText)
open Words (dash equalsSign attachment longWord)

/-! ## What words say -/

/-- The path to the input, or the use of an option or of the flag, with a value if it has one. -/
inductive Item where
  | input (path : Bytes)
  | use (key : Key) (value : Option Bytes)
deriving DecidableEq

namespace Item

@[simp] def input? : Item → Option Bytes
  | input path => some path
  | use .. => none

@[simp] def key? : Item → Option Key
  | input _ => none
  | use key _ => some key

@[simp] def value? : Item → Option (Key × Bytes)
  | input _ => none
  | use key value => value.map (key, ·)

/-- The flag, so many times. -/
def saves (count : Nat) : List Item := List.replicate count (.use .save none)

end Item

/-- A word that is not taken for an option: a single dash, or one that begins with none. -/
def IsOperand (word : Bytes) : Prop := word = [dash] ∨ word.head? ≠ some dash

instance (word : Bytes) : Decidable (IsOperand word) := inferInstanceAs (Decidable (_ ∨ _))

/-- Letters behind a single dash, of which so many are that of the flag. -/
def letterWord (count : Nat) (letters : Bytes) : Bytes :=
  dash :: (List.replicate count 0x73 ++ letters)

/-- Equals signs in front of a value do not belong to it. -/
def assigned (equals : Nat) (value : Bytes) : Bytes := List.replicate equals equalsSign ++ value

/-- The items that a word says, and the option at its end whose value is still to come. -/
inductive Says : Bytes → List Item → Option Key → Prop where
  | flag (more : Nat) (attached : Option Bytes) :
      Says (longWord more (encode Key.save.long.toList) attached) (Item.saves 1) none
  | option (more : Nat) {key : Key} (takesValue : key.takesValue) :
      Says (longWord more (encode key.long.toList) none) [] (some key)
  | optionValue (more equals : Nat) {key : Key} (takesValue : key.takesValue) {value : Bytes}
      (hvalue : value.head? ≠ some equalsSign) :
      Says (longWord more (encode key.long.toList) (some (assigned equals value)))
        [.use key (some value)] none
  | flags (count : Nat) : Says (letterWord (count + 1) []) (Item.saves (count + 1)) none
  | letter (count : Nat) {key : Key} (takesValue : key.takesValue) {letter : Char}
      (hletter : key.short? = some letter) :
      Says (letterWord count (encode [letter])) (Item.saves count) (some key)
  | letterValue (count equals : Nat) {key : Key} (takesValue : key.takesValue) {letter : Char}
      (hletter : key.short? = some letter) {value : Bytes} (hne : assigned equals value ≠ [])
      (hvalue : value.head? ≠ some equalsSign) :
      Says (letterWord count (encode [letter] ++ assigned equals value))
        (Item.saves count ++ [.use key (some value)]) none

/-- A name that nothing has. -/
structure IsUnknown (name : Bytes) : Prop where
  head?_ne : name.head? ≠ some dash
  equalsSign_not_mem : equalsSign ∉ name
  ne_long : ∀ known ∈ longNames, name ≠ encode known.toList

/-- The words that end the reading, each before the words behind it. -/
inductive StopsAt (program : String) : Bytes → List Bytes → Stop → Prop where
  | help (more : Nat) (attached : Option Bytes) (rest : List Bytes) :
      StopsAt program (longWord more (encode "help".toList) attached) rest
        (.refused (.help program))
  | version (more : Nat) (attached : Option Bytes) (rest : List Bytes) :
      StopsAt program (longWord more (encode "version".toList) attached) rest (.refused .version)
  | unknownName (more : Nat) (attached : Option Bytes) {name : List Char} {rest : List Bytes}
      (hname : IsUnknown (encode name))
      (hword : longWord more (encode name) attached ≠ [dash, dash])
      (hrest : ∀ word ∈ rest, IsText word) :
      StopsAt program (longWord more (encode name) attached) rest
        (.refused (.unknownArgument ("--" ++ String.ofList name)
          (Similarity.best? (String.ofList name) longNames)))
  | notText (more : Nat) (attached : Option Bytes) {name : Bytes} {rest : List Bytes}
      (hname : IsUnknown name) (hword : longWord more name attached ≠ [dash, dash])
      (hnot : ¬ (IsText name ∧ ∀ word ∈ rest, IsText word)) :
      StopsAt program (longWord more name attached) rest .notText
  | helpLetter (count : Nat) (others : Bytes) (rest : List Bytes) :
      StopsAt program (letterWord count (0x68 :: others)) rest (.refused (.help program))
  | versionLetter (count : Nat) (others : Bytes) (rest : List Bytes) :
      StopsAt program (letterWord count (0x56 :: others)) rest (.refused .version)
  | unknownLetter (count : Nat) {letters : Bytes} (rest : List Bytes) {letter : Char}
      (hdash : 0 < count ∨ letters.head? ≠ some dash)
      (hshown : (Utf8.decodeLossy letters).head? = some letter)
      (hletter : letter ∉ ['m', 'd', 's', 'h', 'V']) :
      StopsAt program (letterWord count letters) rest
        (.refused (.unknownArgument (String.ofList ['-', letter]) none))

/-- What is read from words on the left to the right, and what ends the reading, if anything does.
Behind two dashes all words stand for themselves, and there is one input at most. -/
inductive Reads (program : String) : (plainOnly hasInput : Bool) → List Bytes → List Item →
    Option Stop → Prop where
  | nil (plainOnly hasInput : Bool) : Reads program plainOnly hasInput [] [] none
  | input {plainOnly : Bool} {path : Bytes} {rest : List Bytes} {items : List Item}
      {stop : Option Stop} (hpath : plainOnly ∨ IsOperand path)
      (hrest : Reads program plainOnly true rest items stop) :
      Reads program plainOnly false (path :: rest) (.input path :: items) stop
  | secondInput {plainOnly : Bool} {path : Bytes} (rest : List Bytes)
      (hpath : plainOnly ∨ IsOperand path) :
      Reads program plainOnly true (path :: rest) []
        (some (.refused (.unknownArgument (Words.shown path) none)))
  | dashes {hasInput : Bool} {rest : List Bytes} {items : List Item} {stop : Option Stop}
      (hrest : Reads program true hasInput rest items stop) :
      Reads program false hasInput ([dash, dash] :: rest) items stop
  | whole {hasInput : Bool} {word : Bytes} {rest : List Bytes} {said items : List Item}
      {stop : Option Stop} (hword : Says word said none)
      (hrest : Reads program false hasInput rest items stop) :
      Reads program false hasInput (word :: rest) (said ++ items) stop
  | valued {hasInput : Bool} {word value : Bytes} {rest : List Bytes} {said items : List Item}
      {stop : Option Stop} {key : Key} (hword : Says word said (some key))
      (hvalue : IsOperand value) (hrest : Reads program false hasInput rest items stop) :
      Reads program false hasInput (word :: value :: rest)
        (said ++ .use key (some value) :: items) stop
  | unvalued {hasInput : Bool} {word : Bytes} {rest : List Bytes} {said items : List Item}
      {stop : Option Stop} {key : Key} (hword : Says word said (some key))
      (hnext : ∀ next ∈ rest.head?, ¬ IsOperand next)
      (hrest : Reads program false hasInput rest items stop) :
      Reads program false hasInput (word :: rest) (said ++ .use key none :: items) stop
  | stops {hasInput : Bool} {word : Bytes} {rest : List Bytes} {stop : Stop}
      (hstop : StopsAt program word rest stop) :
      Reads program false hasInput (word :: rest) [] (some stop)

/-! ## Single words -/

theorem longWord_ne {name : Bytes} (hne : name ≠ []) (more : Nat) (attached : Option Bytes) :
    longWord more name attached ≠ [dash, dash] := by
  simp [longWord, List.replicate_succ, hne]

theorem dropWhile_assigned (equals : Nat) {value : Bytes} (h : value.head? ≠ some equalsSign) :
    (assigned equals value).dropWhile (· = equalsSign) = value := by
  rw [assigned, List.dropWhile_append_of_pos (by simp)]
  cases value with
  | nil => rfl
  | cons b rest => exact List.dropWhile_cons_of_neg (by simpa using h)

namespace Words

variable {w : Words}

theorem read_longWord (hplain : w.plainOnly = false) {more : Nat} {name : Bytes}
    {attached : Option Bytes} (hword : longWord more name attached ≠ [dash, dash])
    (rest : List Bytes) :
    w.read (longWord more name attached) rest =
      { w with pending := none }.long (longWord more name attached) rest := by
  have hbytes : longWord more name attached =
      dash :: dash :: (List.replicate more dash ++ (name ++ attachment attached)) := rfl
  rw [hbytes] at hword ⊢
  exact read_dashes hplain (by simpa using hword) rest

theorem read_letterWord (hplain : w.plainOnly = false) {count : Nat} {letters : Bytes}
    (hne : 0 < count ∨ letters ≠ []) (hdash : 0 < count ∨ letters.head? ≠ some dash)
    (rest : List Bytes) :
    w.read (letterWord count letters) rest =
      { w with pending := none }.letters (List.replicate count 0x73 ++ letters) := by
  cases count with
  | succ count => exact read_dash hplain (by decide : (0x73 : UInt8) ≠ dash) _ rest
  | zero =>
      cases letters with
      | nil => exact absurd rfl (hne.resolve_left (by decide))
      | cons b others =>
          have hb : b ≠ dash := fun hb => hdash.resolve_left (by decide) (congrArg some hb)
          exact read_dash hplain hb others rest

theorem letters_flags (w : Words) (count : Nat) (letters : Bytes) :
    w.letters (List.replicate count 0x73 ++ letters) =
      { w with uses := w.uses ++ List.replicate count Key.save }.letters letters := by
  induction count generalizing w with
  | zero => simp
  | succ count ih =>
      have hsave := letters_named w (rfl : Key.save.short? = some 's')
        (List.replicate count 0x73 ++ letters)
      refine hsave.trans ?_
      rw [if_neg (by decide), ih, addUse, List.append_assoc]
      rfl

/-! ## What has been collected -/

/-- These items have been read in between, in this order. -/
structure Collects (w : Words) (items : List Item) (next : Words) : Prop where
  calledAs_eq : next.calledAs = w.calledAs
  input_eq : next.input.toList = w.input.toList ++ items.filterMap Item.input?
  uses_eq : next.uses = w.uses ++ items.filterMap Item.key?
  values_eq : next.values = w.values ++ items.filterMap Item.value?

theorem Collects.trans {next last : Words} {items items' : List Item} (h : w.Collects items next)
    (h' : next.Collects items' last) : w.Collects (items ++ items') last where
  calledAs_eq := h'.calledAs_eq.trans h.calledAs_eq
  input_eq := by rw [h'.input_eq, h.input_eq, List.filterMap_append, List.append_assoc]
  uses_eq := by rw [h'.uses_eq, h.uses_eq, List.filterMap_append, List.append_assoc]
  values_eq := by rw [h'.values_eq, h.values_eq, List.filterMap_append, List.append_assoc]

theorem collects_nil (w : Words) : w.Collects [] w := by
  constructor <;> simp

theorem collects_addUse (w : Words) (key : Key) : w.Collects [.use key none] (w.addUse key) := by
  constructor <;> simp [addUse]

theorem collects_addValue (w : Words) (key : Key) (value : Bytes) :
    w.Collects [.use key (some value)] ((w.addUse key).addValue key value) := by
  constructor <;> simp [addUse, addValue]

/-- The value that a use lacked is added to it. -/
theorem Collects.addValue {next : Words} {said : List Item} {key : Key}
    (h : w.Collects (said ++ [.use key none]) next) (value : Bytes) :
    w.Collects (said ++ [.use key (some value)]) (next.addValue key value) where
  calledAs_eq := h.calledAs_eq
  input_eq := by simpa [Words.addValue, List.filterMap_cons] using h.input_eq
  uses_eq := by simpa [Words.addValue] using h.uses_eq
  values_eq := by simp [Words.addValue, h.values_eq, List.filterMap_cons]

theorem collects_saves (w : Words) (count : Nat) :
    w.Collects (Item.saves count)
      { w with uses := w.uses ++ List.replicate count Key.save } := by
  have hinputs : (Item.saves count).filterMap Item.input? = [] :=
    List.filterMap_replicate_of_none rfl
  have hkeys : (Item.saves count).filterMap Item.key? = List.replicate count .save :=
    List.filterMap_replicate_of_some rfl
  have hvalues : (Item.saves count).filterMap Item.value? = [] :=
    List.filterMap_replicate_of_none rfl
  constructor <;> simp [hinputs, hkeys, hvalues]

/-- Whether a value is awaited is not part of what is collected. -/
theorem Collects.of_pending {next : Words} {items : List Item} {pending : Option Key}
    (h : { w with pending := pending }.Collects items next) : w.Collects items next :=
  ⟨h.calledAs_eq, h.input_eq, h.uses_eq, h.values_eq⟩

theorem Collects.setPending {next : Words} {items : List Item} (h : w.Collects items next)
    (pending : Option Key) : w.Collects items { next with pending := pending } :=
  ⟨h.calledAs_eq, h.input_eq, h.uses_eq, h.values_eq⟩

end Words

theorem Says.read {word : Bytes} {said : List Item} {pending? : Option Key}
    (h : Says word said pending?) {w : Words} (hplain : w.plainOnly = false) (rest : List Bytes) :
    ∃ next : Words, w.read word rest = .ok next ∧ next.plainOnly = false ∧ next.input = w.input ∧
      next.pending = pending? ∧
      w.Collects (said ++ (pending?.map (Item.use · none)).toList) next := by
  cases h with
  | flag more attached =>
      rw [Words.read_longWord hplain (longWord_ne (by decide) _ _), Words.long_named,
        if_neg (by decide)]
      exact ⟨_, rfl, hplain, rfl, rfl, (Words.collects_addUse _ _).of_pending⟩
  | @option more key takesValue =>
      rw [Words.read_longWord hplain (longWord_ne (Words.long_bytes key).1 _ _), Words.long_named,
        if_pos takesValue]
      exact ⟨_, rfl, hplain, rfl, rfl, ((Words.collects_addUse _ _).setPending _).of_pending⟩
  | @optionValue more equals key takesValue value hvalue =>
      rw [Words.read_longWord hplain (longWord_ne (Words.long_bytes key).1 _ _), Words.long_named,
        if_pos takesValue, Words.option, dropWhile_assigned equals hvalue]
      exact ⟨_, rfl, hplain, rfl, rfl, (Words.collects_addValue _ _ _).of_pending⟩
  | flags count =>
      rw [Words.read_letterWord hplain (.inl (Nat.succ_pos _)) (.inl (Nat.succ_pos _)),
        Words.letters_flags]
      exact ⟨_, rfl, hplain, rfl, rfl, by simpa using (Words.collects_saves _ _).of_pending⟩
  | @letter count key takesValue letter hletter =>
      obtain ⟨b, hbytes, -, hb, -⟩ := Words.exists_encode_letter hletter
      have hnamed := Words.letters_named
        { w with pending := none, uses := w.uses ++ List.replicate count Key.save } hletter []
      rw [if_pos takesValue, List.append_nil] at hnamed
      rw [Words.read_letterWord hplain (.inr (by simp [hbytes]))
        (.inr (by simpa [hbytes] using hb)), Words.letters_flags, hnamed]
      have hflags := Words.collects_saves { w with pending := none } count
      exact ⟨_, rfl, hplain, rfl, rfl,
        (hflags.trans ((Words.collects_addUse _ key).setPending (some key))).of_pending⟩
  | @letterValue count equals key takesValue letter hletter value hne hvalue =>
      obtain ⟨b, hbytes, -, hb, -⟩ := Words.exists_encode_letter hletter
      rw [Words.read_letterWord hplain (.inr (by simp [hbytes]))
        (.inr (by simpa [hbytes] using hb)), Words.letters_flags, Words.letters_named _ hletter,
        if_pos takesValue, if_neg (by simpa using hne), Words.option,
        dropWhile_assigned equals hvalue]
      refine ⟨_, rfl, hplain, rfl, rfl, ?_⟩
      rw [Option.map_none, Option.toList_none, List.append_nil]
      exact ((Words.collects_saves _ _).trans (Words.collects_addValue _ _ _)).of_pending

section Stops

variable {program : String} {word : Bytes} {rest : List Bytes} {stop : Stop} {w : Words}

theorem Words.letters_h (w : Words) (others : Bytes) :
    w.letters (0x68 :: others) = .error (.refused (.help w.calledAs)) := by
  have hshown : (Utf8.decodeLossy (0x68 :: others)).headD '-' = 'h' := by
    rw [Utf8.decodeLossy, Utf8.parts_cons_ascii (by decide)]
    rfl
  simp only [Words.letters, hshown]
  rfl

theorem Words.letters_V (w : Words) (others : Bytes) :
    w.letters (0x56 :: others) = .error (.refused .version) := by
  have hshown : (Utf8.decodeLossy (0x56 :: others)).headD '-' = 'V' := by
    rw [Utf8.decodeLossy, Utf8.parts_cons_ascii (by decide)]
    rfl
  simp only [Words.letters, hshown]
  rfl

theorem mem_letters {key : Key} {letter : Char} (h : key.short? = some letter) :
    letter ∈ ['m', 'd', 's', 'h', 'V'] := by
  cases key <;> cases h <;> decide

theorem Words.letters_unknown (w : Words) {letters : Bytes} {letter : Char}
    (hshown : (Utf8.decodeLossy letters).head? = some letter)
    (hletter : letter ∉ ['m', 'd', 's', 'h', 'V']) :
    w.letters letters =
      .error (.refused (.unknownArgument (String.ofList ['-', letter]) none)) := by
  cases letters with
  | nil => cases hshown
  | cons b others =>
      have hfirst : (Utf8.decodeLossy (b :: others)).headD '-' = letter := by
        rw [List.headD_eq_head?_getD, hshown, Option.getD_some]
      have hfind : (Key.all.find? fun key => key.short? = some letter) = none := by
        rw [List.find?_eq_none]
        intro key hkey hshort
        exact hletter (mem_letters (of_decide_eq_true hshort))
      have hh : letter ≠ 'h' := by
        rintro rfl
        exact hletter (by decide)
      have hV : letter ≠ 'V' := by
        rintro rfl
        exact hletter (by decide)
      simp only [Words.letters, hfirst, hfind, if_neg hh, if_neg hV]

theorem IsUnknown.long_eq {name : Bytes} (hname : IsUnknown name) (w : Words) (more : Nat)
    (attached : Option Bytes) (rest : List Bytes) :
    w.long (longWord more name attached) rest = .error (Words.unknownName name rest) := by
  have hfind : (Key.all.find? fun key => name = encode key.long.toList) = none := by
    rw [List.find?_eq_none]
    intro key hkey hnamed
    exact hname.ne_long key.long (by cases key <;> decide) (of_decide_eq_true hnamed)
  rw [Words.long_longWord w more hname.head?_ne hname.equalsSign_not_mem, hfind]
  dsimp only
  rw [if_neg (hname.ne_long "help" (by decide)), if_neg (hname.ne_long "version" (by decide))]

theorem StopsAt.read (h : StopsAt program word rest stop) (hplain : w.plainOnly = false)
    (hcalled : w.calledAs = program) : w.read word rest = .error stop := by
  cases h with
  | help more attached =>
      rw [Words.read_longWord hplain (longWord_ne (by decide) _ _),
        Words.long_longWord _ _ (by decide) (by decide), ← hcalled]
      rfl
  | version more attached =>
      rw [Words.read_longWord hplain (longWord_ne (by decide) _ _),
        Words.long_longWord _ _ (by decide) (by decide)]
      rfl
  | unknownName more attached hname hword hrest =>
      have hall : (rest.all fun word => (Utf8.decode? word).isSome) = true :=
        List.all_eq_true.mpr fun word hmem => Utf8.isText_iff.mp (hrest word hmem)
      rw [Words.read_longWord hplain hword, hname.long_eq, Words.unknownName, Utf8.decode?_encode]
      simp only [hall, if_true]
  | notText more attached hname hword hnot =>
      rw [Words.read_longWord hplain hword, hname.long_eq, Words.unknownName]
      split
      · rfl
      · next text htext =>
        rw [if_neg ?_]
        intro hall
        refine hnot ⟨⟨text, Utf8.decode?_eq_some_iff.mp htext⟩, fun word hmem => ?_⟩
        exact Utf8.isText_iff.mpr (List.all_eq_true.mp hall word hmem)
  | helpLetter count others =>
      rw [Words.read_letterWord hplain (.inr (by simp)) (.inr (by simp [dash])),
        Words.letters_flags,
        Words.letters_h, ← hcalled]
  | versionLetter count others =>
      rw [Words.read_letterWord hplain (.inr (by simp)) (.inr (by simp [dash])),
        Words.letters_flags,
        Words.letters_V]
  | @unknownLetter count letters _ letter hdash hshown hletter =>
      have hne : letters ≠ [] := by
        rintro rfl
        cases hshown
      rw [Words.read_letterWord hplain (.inr hne) hdash, Words.letters_flags,
        Words.letters_unknown _ hshown hletter]

end Stops

/-! ## Whole lines -/

namespace Words

variable {w next : Words} {word : Bytes} {rest : List Bytes}

/-- An operand is not taken apart. -/
theorem read_operand (hplain : w.plainOnly = false) (hword : IsOperand word) (rest : List Bytes) :
    w.read word rest = w.plainOrValue word := by
  rcases hword with rfl | hhead
  · simp only [read, hplain]
    rfl
  · have hne : word ≠ [dash, dash] := by
      rintro rfl
      exact hhead rfl
    simp only [read, hplain, Bool.false_eq_true, if_false, if_neg hne]
    split
    · next first second others =>
      have hfirst : first ≠ dash := by
        rintro rfl
        exact hhead rfl
      rw [if_neg hfirst]
    · rfl

/-- The reader in front of words: an option may lack its value unless the next word could be it. -/
structure IsBefore (w : Words) (program : String) (plainOnly hasInput : Bool)
    (words : List Bytes) : Prop where
  calledAs_eq : w.calledAs = program
  plainOnly_eq : w.plainOnly = plainOnly
  isSome_input : w.input.isSome = hasInput
  awaits : w.pending = none ∨ plainOnly ∨ ∀ next ∈ words.head?, ¬ IsOperand next

/-- The reader comes to an end with these items, or stops. -/
def Ends (w : Words) (words : List Bytes) (items : List Item) : Option Stop → Prop
  | none => ∃ next, w.readAll words = .ok next ∧ w.Collects items next
  | some stop => w.readAll words = .error stop

theorem Ends.append {words : List Bytes} {said items : List Item} {stop? : Option Stop}
    (h : next.Ends rest items stop?) (hsaid : w.Collects said next)
    (hread : w.readAll words = next.readAll rest) : w.Ends words (said ++ items) stop? := by
  cases stop? with
  | some stop => exact hread.trans h
  | none =>
      obtain ⟨last, hlast, hitems⟩ := h
      exact ⟨last, hread.trans hlast, hsaid.trans hitems⟩

theorem readAll_cons_error {stop : Stop} (h : w.read word rest = .error stop) :
    w.readAll (word :: rest) = .error stop := by
  rw [readAll, h]
  rfl

/-- Nothing lacks a value any more where a word stands for itself. -/
theorem IsBefore.pending_eq {program : String} {plainOnly hasInput : Bool} {path : Bytes}
    (h : w.IsBefore program plainOnly hasInput (path :: rest))
    (hpath : plainOnly ∨ IsOperand path) : w.pending = none ∨ plainOnly := by
  rcases h.awaits with hnone | hplain | hnext
  · exact .inl hnone
  · exact .inr hplain
  · exact .inr (hpath.resolve_right (hnext path rfl))

theorem IsBefore.read_input {program : String} {plainOnly hasInput : Bool} {path : Bytes}
    (h : w.IsBefore program plainOnly hasInput (path :: rest))
    (hpath : plainOnly ∨ IsOperand path) : w.read path rest = w.plain path := by
  cases hplain : plainOnly with
  | true => simp only [read, h.plainOnly_eq, hplain, if_true]
  | false =>
      subst hplain
      have hpending : w.pending = none := (h.pending_eq hpath).resolve_right (by decide)
      rw [read_operand h.plainOnly_eq (hpath.resolve_left (by decide)), plainOrValue, hpending]

end Words

/-- Whatever the rules say of words, the reader makes of them. -/
theorem Reads.ends {program : String} {plainOnly hasInput : Bool} {words : List Bytes}
    {items : List Item} {stop? : Option Stop}
    (h : Reads program plainOnly hasInput words items stop?) {w : Words}
    (hw : w.IsBefore program plainOnly hasInput words) : w.Ends words items stop? := by
  induction h generalizing w with
  | nil => exact ⟨w, rfl, w.collects_nil⟩
  | @input plainOnly path rest items stop hpath hrest ih =>
      have hinput : w.input = none := by simpa using hw.isSome_input
      have hread : w.read path rest = .ok { w with input := some path } := by
        rw [hw.read_input hpath, Words.plain, hinput]
      have hsaid : w.Collects [.input path] { w with input := some path } := by
        constructor <;> simp [hinput]
      have hafter := ih (w := { w with input := some path }) ⟨hw.calledAs_eq, hw.plainOnly_eq, rfl,
        (hw.pending_eq hpath).imp_right .inl⟩
      exact hafter.append hsaid (Words.readAll_cons hread)
  | @secondInput plainOnly path rest hpath =>
      obtain ⟨input, hinput⟩ := Option.isSome_iff_exists.mp hw.isSome_input
      refine Words.readAll_cons_error ?_
      rw [hw.read_input hpath, Words.plain, hinput]
  | @dashes hasInput rest items stop hrest ih =>
      have hread : w.read [dash, dash] rest = .ok { w with plainOnly := true } := by
        simp only [Words.read, hw.plainOnly_eq]
        rfl
      have hsaid : w.Collects [] { w with plainOnly := true } := by constructor <;> simp
      have hafter := ih (w := { w with plainOnly := true })
        ⟨hw.calledAs_eq, rfl, hw.isSome_input, .inr (.inl rfl)⟩
      exact hafter.append hsaid (Words.readAll_cons hread)
  | @whole hasInput word rest said items stop hword hrest ih =>
      obtain ⟨next, hread, hplain, hinput, hpending, hsaid⟩ := hword.read hw.plainOnly_eq rest
      rw [Option.map_none, Option.toList_none, List.append_nil] at hsaid
      have hafter := ih ⟨hsaid.calledAs_eq.trans hw.calledAs_eq, hplain,
        (congrArg Option.isSome hinput).trans hw.isSome_input, .inl hpending⟩
      exact hafter.append hsaid (Words.readAll_cons hread)
  | @valued hasInput word value rest said items stop key hword hvalue hrest ih =>
      obtain ⟨next, hread, hplain, hinput, hpending, hsaid⟩ :=
        hword.read hw.plainOnly_eq (value :: rest)
      have hreadValue : next.read value rest = .ok (next.addValue key value) := by
        rw [Words.read_operand hplain hvalue, Words.plainOrValue, hpending]
      have hafter := ih (w := next.addValue key value)
        ⟨hsaid.calledAs_eq.trans hw.calledAs_eq, hplain,
          (congrArg Option.isSome hinput).trans hw.isSome_input, .inl rfl⟩
      have hends := hafter.append (hsaid.addValue value)
        ((Words.readAll_cons hread).trans (Words.readAll_cons hreadValue))
      rwa [List.append_assoc] at hends
  | @unvalued hasInput word rest said items stop key hword hnext hrest ih =>
      obtain ⟨next, hread, hplain, hinput, hpending, hsaid⟩ := hword.read hw.plainOnly_eq rest
      have hafter := ih ⟨hsaid.calledAs_eq.trans hw.calledAs_eq, hplain,
        (congrArg Option.isSome hinput).trans hw.isSome_input, .inr (.inr hnext)⟩
      have hends := hafter.append hsaid (Words.readAll_cons hread)
      rwa [List.append_assoc] at hends
  | @stops hasInput word rest stop hstop =>
      exact Words.readAll_cons_error (hstop.read hw.plainOnly_eq hw.calledAs_eq)

end TimingChart.CommandLine
