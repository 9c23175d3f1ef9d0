import Mathlib.Data.List.Basic
import TimingChart.Proofs.Text.Trimming

/-! # Decoding

What is accepted as text is the encoding of this text: the scanner takes a character from the bytes
of this character only. -/

namespace TimingChart.Utf8

theorem toNat_val_ofNat {v : Nat} (h : v.isValidChar) : (Char.ofNat v).val.toNat = v := by
  rw [Char.ofNat, dif_pos h]
  rfl

/-! ## The bytes of a character -/

/-- A byte that is not the first one of a character. -/
def IsLater (b : UInt8) : Prop := 0x80 ≤ b.toNat ∧ b.toNat ≤ 0xBF

section Characters

variable {b b₁ b₂ b₃ : UInt8}

theorem encodeChar_one (hb : b.toNat < 0x80) :
    String.utf8EncodeChar (Char.ofNat b.toNat) = [b] := by
  rw [String.utf8EncodeChar]
  simp only [toNat_val_ofNat (.inl (by omega : b.toNat < 0xD800))]
  rw [if_pos (by omega), UInt8.ofNat_toNat]

theorem encodeChar_two (hb : 0xC2 ≤ b.toNat ∧ b.toNat < 0xE0) (hb₁ : IsLater b₁) :
    String.utf8EncodeChar (Char.ofNat ((b.toNat - 0xC0) * 64 + (b₁.toNat - 0x80))) = [b, b₁] := by
  obtain ⟨hlow₁, hhigh₁⟩ := hb₁
  generalize hv : (b.toNat - 0xC0) * 64 + (b₁.toNat - 0x80) = v
  rw [String.utf8EncodeChar]
  simp only [toNat_val_ofNat (.inl (by omega : v < 0xD800))]
  rw [if_neg (by omega), if_pos (by omega), show v / 64 % 32 + 192 = b.toNat by omega,
    show v % 64 + 128 = b₁.toNat by omega, UInt8.ofNat_toNat, UInt8.ofNat_toNat]

theorem encodeChar_three (hb : 0xE0 ≤ b.toNat ∧ b.toNat < 0xF0) (hb₁ : IsLater b₁)
    (hlow : b.toNat = 0xE0 → 0xA0 ≤ b₁.toNat) (hhigh : b.toNat = 0xED → b₁.toNat ≤ 0x9F)
    (hb₂ : IsLater b₂) :
    String.utf8EncodeChar (Char.ofNat (((b.toNat - 0xE0) * 64 + (b₁.toNat - 0x80)) * 64 +
      (b₂.toNat - 0x80))) = [b, b₁, b₂] := by
  obtain ⟨hlow₁, hhigh₁⟩ := hb₁
  obtain ⟨hlow₂, hhigh₂⟩ := hb₂
  generalize hv : ((b.toNat - 0xE0) * 64 + (b₁.toNat - 0x80)) * 64 + (b₂.toNat - 0x80) = v
  have hvalid : v.isValidChar := by
    rw [Nat.isValidChar]
    omega
  rw [String.utf8EncodeChar]
  simp only [toNat_val_ofNat hvalid]
  rw [if_neg (by omega), if_neg (by omega), if_pos (by omega),
    show v / 4096 % 16 + 224 = b.toNat by omega, show v / 64 % 64 + 128 = b₁.toNat by omega,
    show v % 64 + 128 = b₂.toNat by omega, UInt8.ofNat_toNat, UInt8.ofNat_toNat,
    UInt8.ofNat_toNat]

theorem encodeChar_four (hb : 0xF0 ≤ b.toNat ∧ b.toNat < 0xF5) (hb₁ : IsLater b₁)
    (hlow : b.toNat = 0xF0 → 0x90 ≤ b₁.toNat) (hhigh : b.toNat = 0xF4 → b₁.toNat ≤ 0x8F)
    (hb₂ : IsLater b₂) (hb₃ : IsLater b₃) :
    String.utf8EncodeChar (Char.ofNat ((((b.toNat - 0xF0) * 64 + (b₁.toNat - 0x80)) * 64 +
      (b₂.toNat - 0x80)) * 64 + (b₃.toNat - 0x80))) = [b, b₁, b₂, b₃] := by
  obtain ⟨hlow₁, hhigh₁⟩ := hb₁
  obtain ⟨hlow₂, hhigh₂⟩ := hb₂
  obtain ⟨hlow₃, hhigh₃⟩ := hb₃
  generalize hv : (((b.toNat - 0xF0) * 64 + (b₁.toNat - 0x80)) * 64 + (b₂.toNat - 0x80)) * 64 +
    (b₃.toNat - 0x80) = v
  have hvalid : v.isValidChar := by
    rw [Nat.isValidChar]
    omega
  rw [String.utf8EncodeChar]
  simp only [toNat_val_ofNat hvalid]
  rw [if_neg (by omega), if_neg (by omega), if_neg (by omega),
    show v / 262144 % 8 + 240 = b.toNat by omega, show v / 4096 % 64 + 128 = b₁.toNat by omega,
    show v / 64 % 64 + 128 = b₂.toNat by omega, show v % 64 + 128 = b₃.toNat by omega,
    UInt8.ofNat_toNat, UInt8.ofNat_toNat, UInt8.ofNat_toNat, UInt8.ofNat_toNat]

end Characters

/-! ## What is taken for a character -/

/-- The bytes begin with the first character of the text, and the others are read behind it. -/
def BeginsWith (bytes : Bytes) (text : List Char) : Prop :=
  ∃ c others rest, text = c :: others ∧ bytes = String.utf8EncodeChar c ++ rest ∧
    scan .ready rest = others.map some

theorem beginsWith_of_encodeChar {c : Char} {bytes rest : Bytes} {text : List Char}
    (hbytes : bytes = String.utf8EncodeChar c ++ rest)
    (h : some c :: scan .ready rest = text.map some) : BeginsWith bytes text := by
  cases text with
  | nil => cases h
  | cons first others =>
      obtain ⟨hfirst, hrest⟩ := List.cons.inj h
      exact ⟨first, others, rest, rfl, Option.some.inj hfirst ▸ hbytes, hrest⟩

section Scanning

variable {text : List Char}

/-- Inside a character the next byte is within its bounds. -/
theorem scan_within {missing low high value : Nat} {bytes : Bytes}
    (h : scan (.within missing low high value) bytes = text.map some) :
    ∃ b rest, bytes = b :: rest ∧ (low ≤ b.toNat ∧ b.toNat ≤ high) ∧
      (if missing ≤ 1 then
        some (Char.ofNat (value * 64 + (b.toNat - 0x80))) :: scan .ready rest
      else
        scan (.within (missing - 1) 0x80 0xBF (value * 64 + (b.toNat - 0x80))) rest) =
      text.map some := by
  cases bytes with
  | nil => cases text <;> cases h
  | cons b rest =>
      rw [scan, step] at h
      dsimp only at h
      split at h
      · next hbounds =>
        refine ⟨b, rest, rfl, hbounds, ?_⟩
        split at h
        · next hlast => rwa [if_pos hlast]
        · next hmore => rwa [if_neg hmore]
      · cases text <;> cases h

theorem scan_last {low high value : Nat} {bytes : Bytes}
    (h : scan (.within 1 low high value) bytes = text.map some) :
    ∃ b rest, bytes = b :: rest ∧ (low ≤ b.toNat ∧ b.toNat ≤ high) ∧
      some (Char.ofNat (value * 64 + (b.toNat - 0x80))) :: scan .ready rest = text.map some :=
  scan_within h

theorem scan_more {missing low high value : Nat} {bytes : Bytes}
    (h : scan (.within (missing + 2) low high value) bytes = text.map some) :
    ∃ b rest, bytes = b :: rest ∧ (low ≤ b.toNat ∧ b.toNat ≤ high) ∧
      scan (.within (missing + 1) 0x80 0xBF (value * 64 + (b.toNat - 0x80))) rest =
        text.map some := by
  obtain ⟨b, rest, hbytes, hbounds, hrest⟩ := scan_within h
  rw [if_neg (by omega)] at hrest
  exact ⟨b, rest, hbytes, hbounds, hrest⟩

/-- Behind each kind of first byte the scanner wants the rest of a character. -/
theorem beginsWith_of_scan {b : UInt8} {rest : Bytes}
    (h : scan .ready (b :: rest) = text.map some) : BeginsWith (b :: rest) text := by
  rw [scan, step, first] at h
  dsimp only at h
  split at h
  case isTrue hascii =>
    refine beginsWith_of_encodeChar ?_ h
    rw [encodeChar_one hascii, List.singleton_append]
  split at h
  case isTrue => cases text <;> cases h
  split at h
  case isTrue =>
    obtain ⟨b₁, rest, rfl, hb₁, h⟩ := scan_last h
    refine beginsWith_of_encodeChar ?_ h
    rw [encodeChar_two (by omega) hb₁]
    rfl
  split at h
  case isTrue =>
    obtain ⟨b₁, rest, rfl, ⟨hlow, hhigh⟩, h⟩ := scan_more h
    obtain ⟨b₂, rest, rfl, hb₂, h⟩ := scan_last h
    refine beginsWith_of_encodeChar ?_ h
    have hb₁ : IsLater b₁ := by
      constructor
      · split at hlow <;> omega
      · split at hhigh <;> omega
    have hsmall : b.toNat = 0xE0 → 0xA0 ≤ b₁.toNat := fun hb => by rwa [if_pos hb] at hlow
    have hsurrogate : b.toNat = 0xED → b₁.toNat ≤ 0x9F := fun hb => by rwa [if_pos hb] at hhigh
    rw [encodeChar_three (by omega) hb₁ hsmall hsurrogate hb₂]
    rfl
  split at h
  case isTrue =>
    obtain ⟨b₁, rest, rfl, ⟨hlow, hhigh⟩, h⟩ := scan_more h
    obtain ⟨b₂, rest, rfl, hb₂, h⟩ := scan_more h
    obtain ⟨b₃, rest, rfl, hb₃, h⟩ := scan_last h
    refine beginsWith_of_encodeChar ?_ h
    have hb₁ : IsLater b₁ := by
      constructor
      · split at hlow <;> omega
      · split at hhigh <;> omega
    have hsmall : b.toNat = 0xF0 → 0x90 ≤ b₁.toNat := fun hb => by rwa [if_pos hb] at hlow
    have hlarge : b.toNat = 0xF4 → b₁.toNat ≤ 0x8F := fun hb => by rwa [if_pos hb] at hhigh
    rw [encodeChar_four (by omega) hb₁ hsmall hlarge hb₂ hb₃]
    rfl
  cases text <;> cases h

end Scanning

/-! ## Main result -/

theorem eq_encode_of_scan {bytes : Bytes} {text : List Char}
    (h : scan .ready bytes = text.map some) : bytes = encode text := by
  induction text generalizing bytes with
  | nil =>
      cases bytes with
      | nil => rfl
      | cons b rest =>
          obtain ⟨c, others, -, htext, -⟩ := beginsWith_of_scan h
          cases htext
  | cons c text ih =>
      cases bytes with
      | nil => cases h
      | cons b rest =>
          obtain ⟨c', others, rest', htext, hbytes, hrest⟩ := beginsWith_of_scan h
          obtain ⟨rfl, rfl⟩ := List.cons.inj htext
          rw [hbytes, ih hrest, encode, encode, List.flatMap_cons]

theorem mapM_id_eq_some_iff {α : Type} {items : List (Option α)} {values : List α} :
    items.mapM id = some values ↔ items = values.map some := by
  induction items generalizing values with
  | nil => cases values <;> simp
  | cons item items ih =>
      rw [List.mapM_cons]
      simp only [Option.bind_eq_bind, Option.bind_eq_some_iff, id, ih, Option.pure_def,
        Option.some.injEq]
      constructor
      · rintro ⟨value, rfl, values, rfl, rfl⟩
        rfl
      · intro h
        obtain ⟨value, values, rfl, rfl, rfl⟩ := List.map_eq_cons_iff.mp h.symm
        exact ⟨value, rfl, values, rfl, rfl⟩

/-- The text of a byte string is the one that it is the encoding of. -/
theorem decode?_eq_some_iff {bytes : Bytes} {text : List Char} :
    decode? bytes = some text ↔ bytes = encode text := by
  constructor
  · intro h
    exact eq_encode_of_scan (mapM_id_eq_some_iff.mp h)
  · rintro rfl
    exact decode?_encode text

/-! ## Texts among bytes -/

/-- The bytes are those of a text. -/
def IsText (bytes : Bytes) : Prop := ∃ text, bytes = encode text

theorem isText_iff {bytes : Bytes} : IsText bytes ↔ (decode? bytes).isSome := by
  rw [Option.isSome_iff_exists]
  exact exists_congr fun _ => decode?_eq_some_iff.symm

instance (bytes : Bytes) : Decidable (IsText bytes) := decidable_of_iff _ isText_iff.symm

/-- Nothing in a text is broken. -/
theorem isText_iff_parts {bytes : Bytes} : IsText bytes ↔ none ∉ parts bytes := by
  constructor
  · rintro ⟨text, rfl⟩
    rw [parts_encode]
    simp
  · intro h
    refine ⟨(parts bytes).filterMap id, eq_encode_of_scan ?_⟩
    rw [List.map_filterMap]
    conv_lhs => rw [← List.filterMap_some (l := scan .ready bytes)]
    refine List.filterMap_congr fun part hpart => ?_
    cases part with
    | none => exact absurd hpart h
    | some c => rfl

/-- A text can be cut at any ASCII byte. -/
theorem isText_append_ascii {b : UInt8} (hb : b.toNat < 0x80) {bytes rest : Bytes} :
    IsText (bytes ++ b :: rest) ↔ IsText bytes ∧ IsText rest := by
  rw [isText_iff_parts, isText_iff_parts, isText_iff_parts, parts_append_ascii hb, List.mem_append,
    List.mem_cons, not_or, not_or]
  simp

theorem isText_cons_ascii {b : UInt8} (hb : b.toNat < 0x80) {bytes : Bytes} :
    IsText (b :: bytes) ↔ IsText bytes := by
  have h : IsText ([] ++ b :: bytes) ↔ IsText [] ∧ IsText bytes := isText_append_ascii hb
  rw [List.nil_append] at h
  exact h.trans (and_iff_right ⟨[], rfl⟩)

theorem isText_append_of_ascii {front rest : Bytes} (h : ∀ b ∈ front, b.toNat < 0x80) :
    IsText (front ++ rest) ↔ IsText rest := by
  induction front with
  | nil => rfl
  | cons b front ih =>
      rw [List.forall_mem_cons] at h
      rw [List.cons_append, isText_cons_ascii h.1, ih h.2]

/-! ## ASCII characters -/

/-- Inside a character of more than one byte: it comes out beyond the ASCII characters. -/
def State.IsBeyond : State → Prop
  | .ready => False
  | .within missing low _ value =>
    if missing ≤ 1 then 2 ≤ value else 2 ≤ value * 64 + (low - 0x80)

theorem first_isBeyond {b : UInt8} (hb : 0x80 ≤ b.toNat) :
    first b = ([none], .ready) ∨ (first b).1 = [] ∧ (first b).2.IsBeyond := by
  rw [first, if_neg (by omega)]
  split
  · exact .inl rfl
  split
  · refine .inr ⟨rfl, ?_⟩
    rw [State.IsBeyond, if_pos (Nat.le_refl 1)]
    omega
  split
  · refine .inr ⟨rfl, ?_⟩
    rw [State.IsBeyond, if_neg (by decide)]
    split <;> omega
  split
  · refine .inr ⟨rfl, ?_⟩
    rw [State.IsBeyond, if_neg (by decide)]
    split <;> omega
  · exact .inl rfl

theorem toNat_ofNat_beyond {v : Nat} (hv : 0x80 ≤ v) :
    0x80 ≤ (Char.ofNat v).toNat ∨ Char.ofNat v = '\x00' := by
  by_cases hvalid : v.isValidChar
  · left
    rw [Char.toNat, toNat_val_ofNat hvalid]
    exact hv
  · right
    rw [Char.ofNat, dif_neg hvalid]
    rfl

theorem head?_scan_beyond {s : State} {bytes : Bytes} {c : Char} (hs : s.IsBeyond)
    (h : (scan s bytes).head? = some (some c)) : 0x80 ≤ c.toNat ∨ c = '\x00' := by
  induction bytes generalizing s with
  | nil =>
      cases s with
      | ready => cases hs
      | within => cases h
  | cons b bytes ih =>
      cases s with
      | ready => cases hs
      | within missing low high value =>
          rw [State.IsBeyond] at hs
          rw [scan, step] at h
          dsimp only at h
          split at h
          · next hbounds =>
            split at h
            · next hlast =>
              rw [if_pos hlast] at hs
              obtain rfl := Option.some.inj (Option.some.inj h)
              exact toNat_ofNat_beyond (by omega)
            · next hmore =>
              rw [if_neg hmore] at hs
              refine ih (s := .within (missing - 1) 0x80 0xBF _) ?_ h
              rw [State.IsBeyond]
              split <;> omega
          · cases h

/-- A character that is shown first and is an ASCII character is the first byte. -/
theorem toNat_of_head?_decodeLossy {b : UInt8} {bytes : Bytes} {c : Char} (hc : c.toNat < 0x80)
    (hne : c ≠ '\x00') (h : (decodeLossy (b :: bytes)).head? = some c) : b.toNat = c.toNat := by
  rw [decodeLossy, List.head?_map, Option.map_eq_some_iff] at h
  obtain ⟨part, hpart, hgetD⟩ := h
  by_cases hb : b.toNat < 0x80
  · rw [parts_cons_ascii hb] at hpart
    obtain rfl := Option.some.inj hpart
    rw [← hgetD, Option.getD_some, Char.toNat, toNat_val_ofNat (.inl (by omega))]
  · cases part with
    | none =>
        rw [← hgetD] at hc
        exact absurd hc (by decide)
    | some c' =>
        obtain rfl : c' = c := hgetD
        rw [parts, scan, step] at hpart
        rcases first_isBeyond (by omega : 0x80 ≤ b.toNat) with hbroken | ⟨hnone, hbeyond⟩
        · rw [hbroken] at hpart
          cases hpart
        · dsimp only at hpart
          rw [hnone] at hpart
          rcases head?_scan_beyond hbeyond hpart with hle | hzero
          · omega
          · exact absurd hzero hne

theorem scan_within_ne_nil (missing low high value : Nat) (bytes : Bytes) :
    scan (.within missing low high value) bytes ≠ [] := by
  induction bytes generalizing missing low high value with
  | nil => exact List.cons_ne_nil _ _
  | cons b bytes ih =>
      rw [scan, step]
      dsimp only
      split
      · split
        · exact List.cons_ne_nil _ _
        · exact ih _ _ _ _
      · exact List.cons_ne_nil _ _

/-- Something is shown for whatever there is. -/
theorem exists_head?_decodeLossy (b : UInt8) (bytes : Bytes) :
    ∃ c, (decodeLossy (b :: bytes)).head? = some c := by
  have hparts : parts (b :: bytes) ≠ [] := by
    by_cases hb : b.toNat < 0x80
    · rw [parts_cons_ascii hb]
      exact List.cons_ne_nil _ _
    · rw [parts, scan, step]
      dsimp only
      rcases first_isBeyond (by omega : 0x80 ≤ b.toNat) with hbroken | ⟨hnone, hbeyond⟩
      · rw [hbroken]
        exact List.cons_ne_nil _ _
      · rw [hnone]
        cases hnext : (first b).2 with
        | ready =>
            rw [hnext] at hbeyond
            cases hbeyond
        | within missing low high value => exact scan_within_ne_nil missing low high value bytes
  obtain ⟨part, others, hcons⟩ := List.exists_cons_of_ne_nil hparts
  refine ⟨part.getD '\uFFFD', ?_⟩
  rw [decodeLossy, hcons]
  rfl

end TimingChart.Utf8
