import TimingChart.Proofs.Decimal.ReadBack
import TimingChart.Text.Blank
import TimingChart.Text.Utf8

/-! # Characters of numbers

Numbers are written with characters that need no quotes and are no blanks, one byte each. -/

namespace TimingChart

/-- The ASCII characters behind the comma: among them are all letters and digits, the point, the
minus sign and the underscore, but no blank and nothing that separates fields. -/
def IsPlain (c : Char) : Prop := 0x2D ≤ c.toNat ∧ c.toNat < 0x7F

instance (c : Char) : Decidable (IsPlain c) :=
  inferInstanceAs (Decidable (0x2D ≤ c.toNat ∧ c.toNat < 0x7F))

theorem isPlain_of_isDigit {c : Char} (hc : c.isDigit) : IsPlain c := by
  obtain ⟨hlow, hhigh⟩ := toNat_of_isDigit hc
  exact ⟨by omega, by omega⟩

theorem isBlank_of_isPlain {c : Char} (hc : IsPlain c) : Blank.isBlank c = false := by
  obtain ⟨hlow, hhigh⟩ := hc
  simp [Blank.isBlank, Blank.ranges]
  omega

theorem encode_of_isPlain {c : Char} (hc : IsPlain c) :
    String.utf8EncodeChar c = [UInt8.ofNat c.toNat] := by
  have hle : c.val.toNat ≤ 127 := by
    have hlt := hc.2
    simp only [Char.toNat] at hlt
    omega
  rw [String.utf8EncodeChar, if_pos hle]
  rfl

theorem toNat_of_mem_encode {text : List Char} (htext : ∀ c ∈ text, IsPlain c) {b : UInt8}
    (hb : b ∈ Utf8.encode text) : 0x2D ≤ b.toNat ∧ b.toNat < 0x7F := by
  obtain ⟨c, hc, hbc⟩ := List.mem_flatMap.mp hb
  have hplain := htext c hc
  have hlt := hplain.2
  rw [encode_of_isPlain hplain, List.mem_singleton] at hbc
  rw [hbc, Utf8.toNat_ofNat_of_lt (by omega)]
  exact hplain

theorem isPlain_of_mem_integerText {n : Int} {c : Char} (hc : c ∈ integerText n) : IsPlain c := by
  rw [integerText] at hc
  split at hc
  · rcases List.mem_cons.mp hc with rfl | hc
    · decide
    · exact isPlain_of_isDigit (isDigit_of_mem_toDigits hc)
  · exact isPlain_of_isDigit (isDigit_of_mem_toDigits hc)

theorem isPlain_of_mem_shortText {x : Binary64} {c : Char} (hc : c ∈ x.shortText) :
    IsPlain c := by
  have hsigned : ∀ {s : Bool} {text : List Char}, (∀ c ∈ text, IsPlain c) →
      c ∈ Binary64.signed s text → IsPlain c := by
    intro s text htext hc
    cases s with
    | false => exact htext c hc
    | true =>
        rcases List.mem_cons.mp hc with rfl | hc
        · decide
        · exact htext c hc
  cases x with
  | nan => exact (by decide : ∀ c ∈ ['N', 'a', 'N'], IsPlain c) c hc
  | infinite s => exact hsigned (by decide) hc
  | finite s m =>
      refine hsigned (fun c hc => ?_) hc
      rcases Decimal.mem_plain hc with hdigit | rfl
      · exact isPlain_of_isDigit hdigit
      · decide

end TimingChart
