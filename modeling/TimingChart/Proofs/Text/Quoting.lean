import TimingChart.Proofs.Decimal.ReadBack
import TimingChart.Text.Quoted

/-! # Quoted text is read back

A quoted text stands on one line, shows nothing that a terminal would act on, and tells what the
text is: a reader that knows the escapes gets it back. So different texts are quoted differently,
also where one of them holds what looks like an escape. -/

namespace TimingChart

/-! ## What does not stand on a line -/

/-- The control characters: those below the blank, the one above the tilde, and the 32 behind it. -/
def IsControl (c : Char) : Prop := c.toNat < 0x20 ∨ 0x7F ≤ c.toNat ∧ c.toNat < 0xA0

/-- The characters that end a line: line feed, vertical tab, form feed, carriage return, next line,
and the separators of lines and of paragraphs. -/
def BreaksLine (c : Char) : Prop :=
  0xA ≤ c.toNat ∧ c.toNat ≤ 0xD ∨ c.toNat = 0x85 ∨ c.toNat = 0x2028 ∨ c.toNat = 0x2029

instance (c : Char) : Decidable (IsControl c) :=
  inferInstanceAs (Decidable (c.toNat < 0x20 ∨ 0x7F ≤ c.toNat ∧ c.toNat < 0xA0))

instance (c : Char) : Decidable (BreaksLine c) :=
  inferInstanceAs (Decidable
    (0xA ≤ c.toNat ∧ c.toNat ≤ 0xD ∨ c.toNat = 0x85 ∨ c.toNat = 0x2028 ∨ c.toNat = 0x2029))

/-- A text without line breaks and without other control characters. -/
def IsOneLine (text : List Char) : Prop := ∀ c ∈ text, ¬ IsControl c ∧ ¬ BreaksLine c

instance (text : List Char) : Decidable (IsOneLine text) :=
  inferInstanceAs (Decidable (∀ c ∈ text, ¬ IsControl c ∧ ¬ BreaksLine c))

theorem isOneLine_append {text text' : List Char} :
    IsOneLine (text ++ text') ↔ IsOneLine text ∧ IsOneLine text' :=
  List.forall_mem_append

namespace Invisible

variable {c : Char}

theorem isInvisible_of_range {low high : Nat} (hrange : (low, high) ∈ ranges)
    (hlow : low ≤ c.toNat) (hhigh : c.toNat ≤ high) : isInvisible c = true := by
  rw [isInvisible, List.any_eq_true]
  exact ⟨(low, high), hrange, by simp [hlow, hhigh]⟩

theorem isInvisible_of_isControl (h : IsControl c) : isInvisible c = true := by
  rcases h with hlow | ⟨hlow, hhigh⟩
  · have hrange : (0x0, 0x1F) ∈ ranges := by decide +kernel
    exact isInvisible_of_range hrange (Nat.zero_le _) (by omega)
  · have hrange : (0x7F, 0xA0) ∈ ranges := by decide +kernel
    exact isInvisible_of_range hrange hlow (by omega)

theorem isInvisible_of_breaksLine (h : BreaksLine c) : isInvisible c = true := by
  by_cases hcontrol : IsControl c
  · exact isInvisible_of_isControl hcontrol
  · unfold IsControl at hcontrol
    unfold BreaksLine at h
    have hrange : (0x2028, 0x202F) ∈ ranges := by decide +kernel
    exact isInvisible_of_range hrange (by omega) (by omega)

end Invisible

/-! ## Reading quoted text -/

namespace Quoted

open Numeral (Digits)

/-- The character that a letter behind a backslash stands for. -/
def ofLetter? : Char → Option Char
  | '0' => some '\x00'
  | 't' => some '\t'
  | 'r' => some '\r'
  | 'n' => some '\n'
  | '\\' => some '\\'
  | '"' => some '"'
  | _ => none

/-- Where a reader stands: between two characters, behind a backslash, in front of the brace of a
code point, or behind some of its digits. -/
inductive Place where
  | between
  | escape
  | code
  | digits (value : Nat)

/-- Reads a text up to its closing quote. -/
def read? : Place → List Char → Option (List Char)
  | _, [] => none
  | .between, c :: rest =>
    if c = '"' then some []
    else if c = '\\' then read? .escape rest
    else (read? .between rest).map (c :: ·)
  | .escape, letter :: rest =>
    if letter = 'u' then read? .code rest
    else (ofLetter? letter).bind fun c => (read? .between rest).map (c :: ·)
  | .code, brace :: rest => if brace = '\x7b' then read? (.digits 0) rest else none
  | .digits value, c :: rest =>
    if c = '\x7d' then (read? .between rest).map (Char.ofNat value :: ·)
    else (Numeral.digitValue? 16 c).bind fun d => read? (.digits (value * 16 + d)) rest

/-- The first text on a line that is quoted. -/
def first? (line : List Char) : Option (List Char) :=
  read? .between ((line.dropWhile (· ≠ '"')).drop 1)

variable {c : Char} {rest : List Char}

theorem letter?_eq_some {letter : Char} (h : letter? c = some letter) :
    ofLetter? letter = some c ∧ letter ≠ 'u' ∧ IsOneLine [letter] := by
  unfold letter? at h
  split at h <;> simp at h <;> subst h <;> decide

theorem ne_of_letter?_eq_none (h : letter? c = none) : c ≠ '"' ∧ c ≠ '\\' := by
  constructor <;> rintro rfl <;> simp [letter?] at h

/-- Digits are appended to the value that has been read. -/
theorem read?_digits {digits : List Char} {n : Nat} (h : Digits 16 digits n) (rest : List Char) :
    read? (.digits 0) (digits ++ rest) = read? (.digits n) rest := by
  have hstep : ∀ {c : Char} {d : Nat}, Numeral.IsDigit 16 c d → ∀ (value : Nat) (rest : List Char),
      read? (.digits value) (c :: rest) = read? (.digits (value * 16 + d)) rest := by
    intro c d hc value rest
    have hbrace : c ≠ '\x7d' := by
      rintro rfl
      have hvalue := (Numeral.digitValue?_eq_some_iff (by decide)).mpr hc
      simp [Numeral.digitValue?] at hvalue
    rw [read?, if_neg hbrace, (Numeral.digitValue?_eq_some_iff (by decide)).mpr hc,
      Option.bind_some]
  induction h generalizing rest with
  | first hc => simp [hstep hc]
  | next _ hc ih => rw [List.append_assoc, ih, List.singleton_append, hstep hc]

/-- Each character is read back, in whichever way it was written. -/
theorem read?_encodeChar (c : Char) (rest : List Char) :
    read? .between (encodeChar c ++ rest) = (read? .between rest).map (c :: ·) := by
  unfold encodeChar
  split
  next letter hletter =>
    obtain ⟨hof, hu, -⟩ := letter?_eq_some hletter
    simp [read?, hof, hu]
  next hnone =>
    obtain ⟨hquote, hslash⟩ := ne_of_letter?_eq_none hnone
    split
    next =>
      have hdigits : Digits 16 _ c.toNat := Numeral.digits_toDigits (by decide) c.toNat
      simp [read?, read?_digits hdigits]
    next => simp [read?, hquote, hslash]

theorem read?_flatMap_encodeChar (text rest : List Char) :
    read? .between (text.flatMap encodeChar ++ '"' :: rest) = some text := by
  induction text with
  | nil => simp [read?]
  | cons c text ih =>
      rw [List.flatMap_cons, List.append_assoc, read?_encodeChar, ih, Option.map_some]

/-- A quoted text is read back, wherever it stands on a line. -/
theorem first?_encode {front : List Char} (hfront : '"' ∉ front) (text rest : List Char) :
    first? (front ++ encode text ++ rest) = some text := by
  have hskip : (front ++ encode text ++ rest).dropWhile (· ≠ '"') = encode text ++ rest := by
    rw [List.append_assoc, List.dropWhile_append_of_pos]
    · simp [encode]
    · intro c hc
      have hne : c ≠ '"' := fun heq => hfront (heq ▸ hc)
      simpa using hne
  rw [first?, hskip, encode]
  simpa using read?_flatMap_encodeChar text rest

/-! ## What quoted text shows -/

theorem isOneLine_hexDigits (n : Nat) : IsOneLine (Nat.toDigits 16 n) := by
  intro c hc
  obtain ⟨d, hd, hdigit⟩ := (Numeral.digits_toDigits (by decide) n).exists_isDigit hc
  interval_cases d <;> rcases hdigit with rfl | rfl <;> decide

theorem isOneLine_encodeChar (c : Char) : IsOneLine (encodeChar c) := by
  unfold encodeChar
  split
  next letter hletter =>
    exact List.forall_mem_cons.mpr ⟨by decide, (letter?_eq_some hletter).2.2⟩
  next =>
    split
    next =>
      apply isOneLine_append.mpr
      refine ⟨isOneLine_append.mpr ⟨by decide, isOneLine_hexDigits _⟩, by decide⟩
    next hvisible =>
      intro a ha
      obtain rfl := List.mem_singleton.mp ha
      constructor
      · intro hcontrol
        exact hvisible (Invisible.isInvisible_of_isControl hcontrol)
      · intro hbreak
        exact hvisible (Invisible.isInvisible_of_breaksLine hbreak)

/-- Whatever a text holds, it is quoted on one line. -/
theorem isOneLine_encode (text : List Char) : IsOneLine (encode text) := by
  intro c hc
  simp only [encode, List.cons_append, List.mem_cons, List.mem_append, List.mem_flatMap,
    List.not_mem_nil, or_false] at hc
  rcases hc with rfl | ⟨a, -, hc⟩ | rfl
  · decide
  · exact isOneLine_encodeChar a c hc
  · decide

end Quoted

end TimingChart
