import Mathlib.Data.List.Forall2
import TimingChart.CommandLine.Config
import TimingChart.Proofs.Decimal.ReadBack

/-! # Writing command lines

The same request can be written in many ways: its parts in any order, every option under either of
its names, with its value behind it or attached to it, and the input anywhere among the options or
last of all, behind two dashes. -/

namespace TimingChart.CommandLine

/-! ## Requests -/

/-- A length in decimal digits, with zeros in front if need be. -/
structure LengthText where
  digits : List Char
  ne_nil : digits ≠ []
  isDigit : ∀ c ∈ digits, c.isDigit
  inRange : Nat.ofDigitChars 10 digits 0 < UInt32.size

def LengthText.value (l : LengthText) : UInt32 := .ofNat (Nat.ofDigitChars 10 l.digits 0)

/-- Every length can be asked for. -/
theorem LengthText.exists_value (n : UInt32) : ∃ l : LengthText, l.value = n := by
  have hvalue : Nat.ofDigitChars 10 (Nat.toDigits 10 n.toNat) 0 = n.toNat :=
    Nat.ofDigitChars_ten_toDigits
  let l : LengthText := {
    digits := Nat.toDigits 10 n.toNat
    ne_nil := Nat.toDigits_ne_nil
    isDigit := fun _ hc => isDigit_of_mem_toDigits hc
    inRange := by rw [hvalue]; exact n.toNat_lt_size }
  exact ⟨l, (congrArg UInt32.ofNat hvalue).trans UInt32.ofNat_toNat⟩

/-- What is asked for: the path to the input, and whatever is not to be left to its default. -/
structure Request where
  input : List Char
  mode : Option (List Char)
  outputDirectory : Option (List Char)
  save : Bool
  width : Option LengthText
  height : Option LengthText

namespace Request

/-- The configuration that is asked for. -/
def config (r : Request) : Config where
  input := ⟨Utf8.encode r.input⟩
  mode := match r.mode with
    | none => .prompt
    | some answer => .given (Selection.parse answer).mode
  outputDirectory :=
    ⟨Utf8.encode (r.outputDirectory.getD "./vector_api_test_plots/".toList)⟩
  save := r.save
  size := ⟨(r.width.map LengthText.value).getD 1600, (r.height.map LengthText.value).getD 800⟩

/-- The warning about the mode that is asked for, if there is one. -/
def log (r : Request) : Log :=
  match r.mode with
  | none => []
  | some answer => (Selection.parse answer).log

end Request

/-! ## Parts -/

/-- A part of a request. -/
inductive Part where
  | input (path : List Char)
  | option (key : Key) (takesValue : key.takesValue) (value : List Char)
  | save
deriving DecidableEq

namespace Part

def input? : Part → Option (List Char)
  | input path => some path
  | option .. | save => none

def key? : Part → Option Key
  | input _ => none
  | option key _ _ => some key
  | save => some .save

def value? : Part → Option (Key × Bytes)
  | option key _ value => some (key, Utf8.encode value)
  | input _ | save => none

end Part

namespace Request

/-- The value that is asked for an option. -/
def value? (r : Request) : Key → Option (List Char)
  | .mode => r.mode
  | .outputDirectory => r.outputDirectory
  | .save => none
  | .width => r.width.map LengthText.digits
  | .height => r.height.map LengthText.digits

/-- The part of a request that is about an option or the flag. -/
def part? (r : Request) (key : Key) : Option Part :=
  if takesValue : key.takesValue then (r.value? key).map (.option key takesValue)
  else if r.save then some .save else none

/-- The parts about options and the flag. -/
def options (r : Request) : List Part := Key.all.filterMap r.part?

def parts (r : Request) : List Part := .input r.input :: r.options

end Request

/-! ## Words -/

/-- A word that is not taken for an option: a single dash, or one that begins with none. -/
def IsPlainWord (word : List Char) : Prop := word = ['-'] ∨ word.head? ≠ some '-'

instance (word : List Char) : Decidable (IsPlainWord word) :=
  inferInstanceAs (Decidable (_ ∨ _))

/-- A value that can be attached: equals signs in front of it would be lost. -/
def IsAttachable (value : List Char) : Prop := value.head? ≠ some '='

instance (value : List Char) : Decidable (IsAttachable value) := inferInstanceAs (Decidable (_ ≠ _))

/-- A word for an option or the flag, without a value. -/
inductive Key.IsNamedBy (key : Key) : List Char → Prop where
  | long : key.IsNamedBy ('-' :: '-' :: key.long.toList)
  | short (letter : Char) (hletter : key.short? = some letter) : key.IsNamedBy ['-', letter]

/-- The words for an option with a value. -/
inductive Key.IsGivenBy (key : Key) (value : List Char) : List (List Char) → Prop where
  | separate (name : List Char) (hname : key.IsNamedBy name) (hvalue : IsPlainWord value) :
      key.IsGivenBy value [name, value]
  | long (hvalue : IsAttachable value) :
      key.IsGivenBy value ['-' :: '-' :: key.long.toList ++ '=' :: value]
  | short (letter : Char) (hletter : key.short? = some letter) (hne : value ≠ [])
      (hvalue : IsAttachable value) : key.IsGivenBy value ['-' :: letter :: value]
  | shortEquals (letter : Char) (hletter : key.short? = some letter) (hne : value ≠ [])
      (hvalue : IsAttachable value) : key.IsGivenBy value ['-' :: letter :: '=' :: value]

/-- The words for a part of a request. -/
inductive Part.IsWritten : Part → List (List Char) → Prop where
  | input (path : List Char) (hpath : IsPlainWord path) : IsWritten (.input path) [path]
  | option (key : Key) (takesValue : key.takesValue) (value : List Char) (words : List (List Char))
      (hwords : key.IsGivenBy value words) : IsWritten (.option key takesValue value) words
  | save (word : List Char) (hword : Key.save.IsNamedBy word) : IsWritten .save [word]

/-- The words for a request: those for its parts in some order, or those for its options with the
input behind them and two dashes between. -/
inductive Request.IsWritten (r : Request) : List (List Char) → Prop where
  | anywhere (parts : List Part) (groups : List (List (List Char))) (hparts : parts.Perm r.parts)
      (hgroups : List.Forall₂ Part.IsWritten parts groups) : r.IsWritten groups.flatten
  | last (options : List Part) (groups : List (List (List Char)))
      (hoptions : options.Perm r.options) (hgroups : List.Forall₂ Part.IsWritten options groups) :
      r.IsWritten (groups.flatten ++ [['-', '-'], r.input])

/-! ## Every request can be written -/

/-- Long names, and values attached wherever this is possible. -/
def Part.words : Part → List (List Char)
  | .input path => [path]
  | .option key _ value =>
    if value.head? = some '=' then ['-' :: '-' :: key.long.toList, value]
    else ['-' :: '-' :: key.long.toList ++ '=' :: value]
  | .save => ['-' :: '-' :: Key.save.long.toList]

theorem Part.isWritten_words {part : Part} (h : ∀ path, part ≠ .input path) :
    part.IsWritten part.words := by
  cases part with
  | input path => exact absurd rfl (h path)
  | save => exact .save _ .long
  | option key takesValue value =>
      refine .option key takesValue value _ ?_
      rw [words]
      split
      · next hequals =>
        refine .separate _ .long (.inr ?_)
        rw [hequals]
        decide
      · next hattached => exact .long hattached

theorem Request.ne_input_of_mem_options {r : Request} {part : Part} (h : part ∈ r.options)
    (path : List Char) : part ≠ .input path := by
  obtain ⟨key, -, hpart⟩ := List.mem_filterMap.mp h
  rintro rfl
  rw [part?] at hpart
  split at hpart
  · simp at hpart
  · split at hpart <;> cases hpart

theorem Request.exists_isWritten (r : Request) : ∃ words, r.IsWritten words := by
  refine ⟨_, .last r.options (r.options.map Part.words) (.refl _) ?_⟩
  rw [List.forall₂_map_right_iff, List.forall₂_same]
  intro part hpart
  exact Part.isWritten_words fun path => ne_input_of_mem_options hpart path

end TimingChart.CommandLine
