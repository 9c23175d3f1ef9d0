import TimingChart.Proofs.Binary64.Nearest
import TimingChart.Proofs.Decimal.Characters

/-! # Whole numbers as texts

A double is shown as the whole number that is nearest to it. So two doubles look the same only if
they have this number and their sign in common. -/

namespace TimingChart

/-! ## Rounding to whole numbers -/

/-- A whole number at most a half away, and an even one if the distance is exactly that. -/
structure RoundsTo (q : Rat) (n : Int) : Prop where
  near : |q - n| ≤ 1 / 2
  even : |q - n| = 1 / 2 → n % 2 = 0

namespace RoundsTo

variable {q : Rat} {m n : Int}

theorem neg (h : RoundsTo q n) : RoundsTo (-q) (-n) := by
  have hdistance : |(-q) - (-n : Int)| = |q - n| := by
    rw [← abs_neg]
    push_cast
    congr 1
    ring
  constructor
  · rw [hdistance]
    exact h.near
  · intro heq
    have heven := h.even (hdistance ▸ heq)
    omega

theorem unique (h : RoundsTo q m) (h' : RoundsTo q n) : m = n := by
  by_contra hne
  wlog hlt : m < n generalizing m n
  · exact this h' h (Ne.symm hne) (by omega)
  -- of two neighbours, both are a half away and both are even
  obtain ⟨-, hhigh⟩ := abs_le.mp h.near
  obtain ⟨hlow, -⟩ := abs_le.mp h'.near
  have hnext : n = m + 1 := by
    have hle : (n : Rat) ≤ m + 1 := by linarith
    have hle' : n ≤ m + 1 := by exact_mod_cast hle
    omega
  subst hnext
  push_cast at hlow
  have hq : q = m + 1 / 2 := by linarith
  have heven := h.even (by rw [hq, add_sub_cancel_left]; norm_num)
  have heven' := h'.even (by rw [hq]; push_cast; norm_num [abs_of_neg])
  omega

/-- A larger rational is not rounded to a smaller number. -/
theorem mono {r : Rat} (h : RoundsTo q m) (h' : RoundsTo r n) (hle : q ≤ r) : m ≤ n := by
  by_contra hgt
  obtain ⟨hlow, -⟩ := abs_le.mp h.near
  obtain ⟨-, hhigh⟩ := abs_le.mp h'.near
  have hnext : (n : Rat) + 1 ≤ m := by exact_mod_cast Int.not_le.mp hgt
  -- only what is half way between two numbers could be rounded to either of them
  have hsame : q = r := le_antisymm hle (by linarith)
  subst hsame
  exact hgt (h.unique h').le

theorem intCast (n : Int) : RoundsTo n n := by
  constructor <;> norm_num

/-- Values that are rounded to the same number are not further apart than one. -/
theorem dist_le_one {r : Rat} (h : RoundsTo q n) (h' : RoundsTo r n) : |q - r| ≤ 1 := by
  have htriangle := abs_sub_le q n r
  rw [abs_sub_comm (n : Rat) r] at htriangle
  linarith [h.near, h'.near]

end RoundsTo

theorem roundsTo_roundHalfEven (num : Nat) {den : Nat} (hden : 0 < den) :
    RoundsTo ((num : Rat) / den) (roundHalfEven num den : Nat) := by
  obtain ⟨hlow, hhigh, hodd⟩ := (roundHalfEven_eq_iff hden).mp (rfl : roundHalfEven num den = _)
  generalize roundHalfEven num den = n at *
  have hpos : (0 : Rat) < 2 * den := by exact_mod_cast Nat.mul_pos Nat.two_pos hden
  have hdistance : |(num : Rat) / den - (n : Int)| =
      |2 * (num : Rat) - 2 * (n * den)| / (2 * den) := by
    rw [← abs_of_pos hpos, ← abs_div]
    congr 1
    push_cast
    field_simp
  have hhalf : (1 : Rat) / 2 = den / (2 * den) := by field_simp
  have hnear : |2 * (num : Int) - 2 * (n * den)| ≤ den := abs_le.mpr (by omega)
  have hstrict : n % 2 = 1 → |2 * (num : Int) - 2 * (n * den)| < den := fun hn =>
    abs_lt.mpr (by have hends := hodd hn; omega)
  constructor
  · rw [hdistance, hhalf]
    exact div_le_div_of_nonneg_right (by exact_mod_cast hnear) hpos.le
  · intro heq
    rw [hdistance, hhalf] at heq
    by_contra hne
    refine absurd heq (ne_of_lt (div_lt_div_of_pos_right ?_ hpos))
    exact_mod_cast hstrict (by omega)

/-! ## Labels -/

namespace Binary64

theorem not_minus_of_forall {text : List Char} (h : ∀ c ∈ text, c ≠ '-') (rest : List Char) :
    text ≠ '-' :: rest := by
  rintro rfl
  exact h '-' List.mem_cons_self rfl

/-- A text without a minus sign shows the sign in front of it. -/
theorem signed_injective {s t : Bool} {text text' : List Char} (h : ∀ c ∈ text, c ≠ '-')
    (h' : ∀ c ∈ text', c ≠ '-') (heq : signed s text = signed t text') : s = t ∧ text = text' := by
  cases s with
  | false =>
      cases t with
      | false => exact ⟨rfl, heq⟩
      | true => exact absurd heq (not_minus_of_forall h text')
  | true =>
      cases t with
      | false => exact absurd heq.symm (not_minus_of_forall h' text)
      | true => exact ⟨rfl, (List.cons.inj heq).2⟩

theorem toDigits_injective : Function.Injective (Nat.toDigits 10) := by
  intro m n h
  rw [← Nat.ofDigitChars_ten_toDigits (n := m), h, Nat.ofDigitChars_ten_toDigits]

/-- What is written behind the sign. -/
def wholeBody : Binary64 → List Char
  | nan => ['N', 'a', 'N']
  | infinite _ => ['i', 'n', 'f']
  | finite _ m => Nat.toDigits 10 (roundHalfEven m.units Magnitude.unitsPerOne)

theorem wholeText_eq_signed (x : Binary64) : x.wholeText = signed x.negative x.wholeBody := by
  cases x <;> rfl

theorem ne_minus_of_mem_wholeBody (x : Binary64) : ∀ c ∈ x.wholeBody, c ≠ '-' := by
  cases x with
  | nan => simp [wholeBody]
  | infinite s => simp [wholeBody]
  | finite s m =>
      rintro c hc rfl
      exact absurd (isDigit_of_mem_toDigits hc) (by decide)

theorem wholeText_eq_iff_body {x y : Binary64} :
    x.wholeText = y.wholeText ↔ x.negative = y.negative ∧ x.wholeBody = y.wholeBody := by
  rw [wholeText_eq_signed, wholeText_eq_signed]
  constructor
  · exact signed_injective x.ne_minus_of_mem_wholeBody y.ne_minus_of_mem_wholeBody
  · rintro ⟨hnegative, hbody⟩
    rw [hnegative, hbody]

theorem roundsTo_finite (s : Bool) (m : Magnitude) :
    RoundsTo (finite s m).toRat
      (if s then -(roundHalfEven m.units Magnitude.unitsPerOne : Int)
      else roundHalfEven m.units Magnitude.unitsPerOne) := by
  have hrounds := roundsTo_roundHalfEven m.units Magnitude.unitsPerOne_pos
  rw [toRat_finite, m.toRat_eq_div]
  cases s with
  | false => exact hrounds
  | true => exact hrounds.neg

/-- Words are no digits. -/
theorem toDigits_ne {n : Nat} {c : Char} (hc : c.isDigit = false) (rest : List Char) :
    Nat.toDigits 10 n ≠ c :: rest := by
  intro h
  have hdigit := isDigit_of_mem_toDigits (h ▸ List.mem_cons_self : c ∈ Nat.toDigits 10 n)
  rw [hc] at hdigit
  cases hdigit

/-- Two labels are the same for the same double, and for doubles with one sign that are rounded to
the same number. -/
theorem wholeText_eq_iff {x y : Binary64} :
    x.wholeText = y.wholeText ↔
      x = y ∨ x.isFinite ∧ y.isFinite ∧ x.negative = y.negative ∧
        ∃ n, RoundsTo x.toRat n ∧ RoundsTo y.toRat n := by
  constructor
  · intro h
    obtain ⟨hnegative, hbody⟩ := wholeText_eq_iff_body.mp h
    cases x with
    | nan =>
        cases y with
        | nan => exact .inl rfl
        | infinite s => cases hbody
        | finite s m => exact absurd hbody.symm (toDigits_ne (by decide) _)
    | infinite s =>
        cases y with
        | nan => cases hbody
        | infinite t => exact .inl (congrArg infinite hnegative)
        | finite t m => exact absurd hbody.symm (toDigits_ne (by decide) _)
    | finite s m =>
        cases y with
        | nan => exact absurd hbody (toDigits_ne (by decide) _)
        | infinite t => exact absurd hbody (toDigits_ne (by decide) _)
        | finite t m' =>
            obtain rfl : s = t := hnegative
            refine .inr ⟨rfl, rfl, rfl, _, roundsTo_finite s m, ?_⟩
            rw [toDigits_injective hbody]
            exact roundsTo_finite s m'
  · rintro (rfl | ⟨hx, hy, hnegative, n, hn, hn'⟩)
    · rfl
    refine wholeText_eq_iff_body.mpr ⟨hnegative, ?_⟩
    cases x with
    | nan => cases hx
    | infinite s => cases hx
    | finite s m =>
        cases y with
        | nan => cases hy
        | infinite t => cases hy
        | finite t m' =>
            obtain rfl : s = t := hnegative
            have hsame :=
              ((roundsTo_finite s m).unique hn).trans (hn'.unique (roundsTo_finite s m'))
            refine congrArg (Nat.toDigits 10) (Int.ofNat_inj.mp ?_)
            cases s with
            | false => exact hsame
            | true => exact neg_injective hsame

end Binary64

end TimingChart
