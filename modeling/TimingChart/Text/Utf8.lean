import TimingChart.Instances

/-!
# Text as bytes

Files, paths and arguments are byte strings; most of them hold text in UTF-8, and none is obliged
to. The decoder is an automaton that says for each part of its input whether it is a character or
broken, so that callers can refuse broken text, locate it, or replace it. Encoded text decodes to
itself (`decode?_encode`).
-/

namespace TimingChart

abbrev Bytes := List UInt8

namespace Utf8

/-- The bytes of a text. -/
def encode (text : List Char) : Bytes := text.flatMap String.utf8EncodeChar

/-- Between two characters, or inside one: so many bytes are missing, the next of them within
bounds, and the bits seen so far have this value. -/
inductive State where
  | ready
  | within (missing : Nat) (low high : Nat) (value : Nat)
deriving DecidableEq

/-- What the first byte of a character says. Overlong forms, surrogates and code points beyond the
last plane are ruled out by the bounds on the second byte. -/
def first (byte : UInt8) : List (Option Char) × State :=
  let b := byte.toNat
  if b < 0x80 then ([some (Char.ofNat b)], .ready)
  else if b < 0xC2 then ([none], .ready)
  else if b < 0xE0 then ([], .within 1 0x80 0xBF (b - 0xC0))
  else if b < 0xF0 then
    ([], .within 2 (if b = 0xE0 then 0xA0 else 0x80) (if b = 0xED then 0x9F else 0xBF) (b - 0xE0))
  else if b < 0xF5 then
    ([], .within 3 (if b = 0xF0 then 0x90 else 0x80) (if b = 0xF4 then 0x8F else 0xBF) (b - 0xF0))
  else ([none], .ready)

/-- One byte. A byte that cannot continue a character breaks it and starts anew. -/
def step : State → UInt8 → List (Option Char) × State
  | .ready, byte => first byte
  | .within missing low high value, byte =>
    let b := byte.toNat
    if low ≤ b ∧ b ≤ high then
      let value := value * 64 + (b - 0x80)
      if missing ≤ 1 then ([some (Char.ofNat value)], .ready)
      else ([], .within (missing - 1) 0x80 0xBF value)
    else
      let (parts, next) := first byte
      (none :: parts, next)

/-- The characters of a byte string, with one gap for each broken part. -/
def scan : State → Bytes → List (Option Char)
  | .ready, [] => []
  | .within .., [] => [none]
  | state, byte :: rest =>
    let (parts, next) := step state byte
    parts ++ scan next rest

def parts (bytes : Bytes) : List (Option Char) := scan .ready bytes

/-- The text, if every part of it is a character. -/
def decode? (bytes : Bytes) : Option (List Char) := (parts bytes).mapM id

/-- The number of bytes before the first broken part. -/
def validLength (bytes : Bytes) : Nat :=
  (encode (((parts bytes).takeWhile Option.isSome).filterMap id)).length

/-- The text with the replacement character in place of each broken part. -/
def decodeLossy (bytes : Bytes) : List Char :=
  (parts bytes).map fun part => part.getD '\uFFFD'

/-! ## Text and back -/

theorem toNat_ofNat_of_lt {n : Nat} (h : n < 256) : (UInt8.ofNat n).toNat = n := by
  simpa using Nat.mod_eq_of_lt h

/-- The bytes of a character are read as that character, whatever comes behind them. -/
theorem scan_encodeChar (c : Char) (rest : Bytes) :
    scan .ready (String.utf8EncodeChar c ++ rest) = some c :: scan .ready rest := by
  have hv : c.val.toNat < 0xD800 ∨ 0xDFFF < c.val.toNat ∧ c.val.toNat < 0x110000 := c.valid
  have hc : Char.ofNat c.val.toNat = c := Char.ofNat_toNat c
  simp only [String.utf8EncodeChar]
  generalize c.val.toNat = v at hv hc ⊢
  split
  · rename_i h
    simp only [List.singleton_append, scan, step, first, toNat_ofNat_of_lt (show v < 256 by omega)]
    rw [if_pos (by omega)]
    simp [hc]
  · split
    · have h1 : v / 64 % 32 + 192 < 256 := by omega
      have h2 : v % 64 + 128 < 256 := by omega
      simp only [List.cons_append, List.nil_append, scan, step, first, toNat_ofNat_of_lt h1]
      rw [if_neg (by omega), if_neg (by omega), if_pos (by omega)]
      simp only [List.nil_append, toNat_ofNat_of_lt h2]
      rw [if_pos (by omega), if_pos (by omega)]
      simp only [List.singleton_append]
      rw [show (v / 64 % 32 + 192 - 192) * 64 + (v % 64 + 128 - 128) = v by omega, hc]
    · split
      · have h1 : v / 4096 % 16 + 224 < 256 := by omega
        have h2 : v / 64 % 64 + 128 < 256 := by omega
        have h3 : v % 64 + 128 < 256 := by omega
        simp only [List.cons_append, List.nil_append, scan, step, first, toNat_ofNat_of_lt h1]
        rw [if_neg (by omega), if_neg (by omega), if_neg (by omega), if_pos (by omega)]
        simp only [List.nil_append, toNat_ofNat_of_lt h2]
        rw [if_pos (by constructor <;> split <;> omega), if_neg (by omega)]
        simp only [List.nil_append, toNat_ofNat_of_lt h3]
        rw [if_pos (by omega), if_pos (by omega)]
        simp only [List.singleton_append]
        rw [show ((v / 4096 % 16 + 224 - 224) * 64 + (v / 64 % 64 + 128 - 128)) * 64 +
          (v % 64 + 128 - 128) = v by omega, hc]
      · have h1 : v / 262144 % 8 + 240 < 256 := by omega
        have h2 : v / 4096 % 64 + 128 < 256 := by omega
        have h3 : v / 64 % 64 + 128 < 256 := by omega
        have h4 : v % 64 + 128 < 256 := by omega
        simp only [List.cons_append, List.nil_append, scan, step, first, toNat_ofNat_of_lt h1]
        rw [if_neg (by omega), if_neg (by omega), if_neg (by omega), if_neg (by omega),
          if_pos (by omega)]
        simp only [List.nil_append, toNat_ofNat_of_lt h2]
        rw [if_pos (by constructor <;> split <;> omega), if_neg (by omega)]
        simp only [List.nil_append, toNat_ofNat_of_lt h3]
        rw [if_pos (by omega), if_neg (by omega)]
        simp only [List.nil_append, toNat_ofNat_of_lt h4]
        rw [if_pos (by omega), if_pos (by omega)]
        simp only [List.singleton_append]
        rw [show (((v / 262144 % 8 + 240 - 240) * 64 + (v / 4096 % 64 + 128 - 128)) * 64 +
          (v / 64 % 64 + 128 - 128)) * 64 + (v % 64 + 128 - 128) = v by omega, hc]

theorem parts_encode (text : List Char) : parts (encode text) = text.map some := by
  induction text with
  | nil => rfl
  | cons c text ih =>
    simp only [parts, encode, List.flatMap_cons] at ih ⊢
    rw [scan_encodeChar, ih, List.map_cons]

/-- Encoded text decodes to itself. -/
theorem decode?_encode (text : List Char) : decode? (encode text) = some text := by
  rw [decode?, parts_encode]
  induction text with
  | nil => rfl
  | cons c text ih => simp [List.mapM_cons, ih]

end Utf8

end TimingChart
