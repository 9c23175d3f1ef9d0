import Mathlib.Data.List.Induction
import Mathlib.Tactic.IntervalCases
import TimingChart.Decimal.Reading
import TimingChart.Proofs.Fallible

/-! # Which texts are integers

An integer is digits with an optional sign in front. What has been read moves away from zero with
each digit, so that a text of digits is refused exactly if the integer itself is out of bounds. -/

namespace TimingChart

theorem toNat_of_isDigit {c : Char} (hc : c.isDigit) : 48 ≤ c.toNat ∧ c.toNat ≤ 57 := by
  simp only [Char.isDigit, Bool.and_eq_true, decide_eq_true_eq, ge_iff_le] at hc
  exact hc

/-- Characters are checked by their codes, one after the other. -/
@[elab_as_elim]
theorem char_of_codes {motive : Char → Prop} {low high : Nat} (c : Char) (hlow : low ≤ c.toNat)
    (hhigh : c.toNat ≤ high) (h : ∀ code ≤ high, low ≤ code → motive (.ofNat code)) :
    motive c := by
  rw [← Char.ofNat_toNat c]
  exact h c.toNat hhigh hlow

namespace Numeral

/-! ## What digits stand for -/

/-- The characters for a digit, in bases of up to sixteen. -/
def IsDigit (base : Nat) (c : Char) (d : Nat) : Prop :=
  d < base ∧ (c = d.digitChar ∨ c = d.digitChar.toUpper)

/-- Digits and the number that they stand for. -/
inductive Digits (base : Nat) : List Char → Nat → Prop where
  | first {c : Char} {d : Nat} (hc : IsDigit base c d) : Digits base [c] d
  | next {text : List Char} {n : Nat} {c : Char} {d : Nat} (htext : Digits base text n)
      (hc : IsDigit base c d) : Digits base (text ++ [c]) (n * base + d)

/-- An optional sign, and whether it is a minus sign. -/
inductive Sign : List Char → Bool → Prop where
  | none : Sign [] false
  | plus : Sign ['+'] false
  | minus : Sign ['-'] true

/-- Digits with an optional sign, and the integer that they stand for. -/
inductive Signed (base : Nat) : List Char → Int → Prop where
  | intro {sign digits : List Char} {negative : Bool} {n : Nat} (hsign : Sign sign negative)
      (hdigits : Digits base digits n) :
      Signed base (sign ++ digits) (if negative then -n else n)

/-- Why a text that is no integer is refused: there is nothing in it, or something that is no digit,
or an integer out of bounds comes in front of that. -/
inductive Refused (base : Nat) (low high : Int) : List Char → IntegerFault → Prop where
  | empty : Refused base low high [] .empty
  | invalidDigit (text : List Char) : Refused base low high text .invalidDigit
  | tooLarge {front rest : List Char} {n : Int} (hfront : Signed base front n) (hrest : rest ≠ [])
      (hhigh : high < n) : Refused base low high (front ++ rest) .tooLarge
  | tooSmall {front rest : List Char} {n : Int} (hfront : Signed base front n) (hrest : rest ≠ [])
      (hlow : n < low) : Refused base low high (front ++ rest) .tooSmall

theorem digitValue?_eq_some_iff {base : Nat} (hbase : base ≤ 16) {c : Char} {d : Nat} :
    digitValue? base c = some d ↔ IsDigit base c d := by
  constructor
  · intro h
    simp only [digitValue?, Option.ite_none_right_eq_some, Option.some.injEq] at h
    obtain ⟨hlt, rfl⟩ := h
    refine ⟨hlt, ?_⟩
    by_cases hdigit : '0' ≤ c ∧ c ≤ '9'
    · rw [if_pos hdigit]
      have hlow : 48 ≤ c.toNat := hdigit.1
      have hhigh : c.toNat ≤ 57 := hdigit.2
      refine char_of_codes c hlow hhigh ?_
      decide +kernel
    · rw [if_neg hdigit] at hlt ⊢
      by_cases hlower : 'a' ≤ c ∧ c ≤ 'z'
      · rw [if_pos hlower] at hlt ⊢
        have hlow : 97 ≤ c.toNat := hlower.1
        have hhigh : c.toNat ≤ 102 := by
          have hvalue : c.toNat - 97 + 10 < base := hlt
          omega
        refine char_of_codes c hlow hhigh ?_
        decide +kernel
      · rw [if_neg hlower] at hlt ⊢
        split at hlt
        · next hupper =>
          rw [if_pos hupper]
          have hlow : 65 ≤ c.toNat := hupper.1
          have hhigh : c.toNat ≤ 70 := by
            have hvalue : c.toNat - 65 + 10 < base := hlt
            omega
          refine char_of_codes c hlow hhigh ?_
          decide +kernel
        · exact absurd hlt (Nat.lt_irrefl base)
  · intro h
    obtain ⟨hd, hc⟩ := h
    have hd' : d < 16 := by omega
    interval_cases d <;> rcases hc with rfl | rfl <;> simp [digitValue?, Nat.digitChar, hd]

theorem isDigit_ten_iff {c : Char} {d : Nat} : IsDigit 10 c d ↔ c.isDigit ∧ d = c.toNat - 48 := by
  constructor
  · intro h
    obtain ⟨hd, hc⟩ := h
    interval_cases d <;> rcases hc with rfl | rfl <;> decide
  · intro h
    obtain ⟨hdigit, rfl⟩ := h
    obtain ⟨hlow, hhigh⟩ := toNat_of_isDigit hdigit
    refine char_of_codes c hlow hhigh ?_
    unfold IsDigit
    decide +kernel

section Digits

variable {base : Nat} {text digits : List Char} {n : Nat}

theorem IsDigit.pos {c : Char} {d : Nat} (h : IsDigit base c d) : 0 < base :=
  Nat.zero_lt_of_lt h.1

theorem Digits.ne_nil (h : Digits base text n) : text ≠ [] := by
  cases h <;> simp

theorem Digits.exists_isDigit (h : Digits base text n) {c : Char} (hc : c ∈ text) :
    ∃ d, IsDigit base c d := by
  induction h with
  | first hfirst =>
      obtain rfl := List.mem_singleton.mp hc
      exact ⟨_, hfirst⟩
  | next _ hlast ih =>
      rcases List.mem_append.mp hc with hc | hc
      · exact ih hc
      · obtain rfl := List.mem_singleton.mp hc
        exact ⟨_, hlast⟩

/-- Zeros in front change nothing. -/
theorem Digits.zeros_append (h : Digits base text n) (zeros : Nat) :
    Digits base (List.replicate zeros '0' ++ text) n := by
  have hcons : ∀ {text : List Char} {n : Nat}, Digits base text n →
      Digits base ('0' :: text) n := by
    intro text n h
    induction h with
    | @first c d hc =>
        have hzero : Digits base ['0'] 0 := .first ⟨hc.pos, .inl rfl⟩
        have hnext := hzero.next hc
        rwa [Nat.zero_mul, Nat.zero_add] at hnext
    | next _ hc ih => exact ih.next hc
  induction zeros with
  | zero => exact h
  | succ zeros ih => exact hcons ih

/-- In base ten, digits are numerals. -/
theorem digits_ten_iff :
    Digits 10 text n ↔
      text ≠ [] ∧ (∀ c ∈ text, c.isDigit) ∧ n = Nat.ofDigitChars 10 text 0 := by
  constructor
  · intro h
    refine ⟨h.ne_nil, fun c hc => ?_, ?_⟩
    · obtain ⟨d, hd⟩ := h.exists_isDigit hc
      exact (isDigit_ten_iff.mp hd).1
    · induction h with
      | first hc =>
          obtain ⟨-, rfl⟩ := isDigit_ten_iff.mp hc
          simp [Nat.ofDigitChars_cons]
      | next _ hc ih =>
          obtain ⟨-, rfl⟩ := isDigit_ten_iff.mp hc
          rw [Nat.ofDigitChars_append, ← ih, Nat.ofDigitChars_cons, Nat.mul_comm]
          rfl
  · intro h
    obtain ⟨hne, hdigits, rfl⟩ := h
    induction text using List.reverseRecOn with
    | nil => exact absurd rfl hne
    | append_singleton front c ih =>
        have hc : IsDigit 10 c (c.toNat - 48) := isDigit_ten_iff.mpr ⟨hdigits c (by simp), rfl⟩
        by_cases hfront : front = []
        · subst hfront
          simpa [Nat.ofDigitChars_cons] using Digits.first hc
        · have hnext := (ih hfront fun c hc => hdigits c (by simp [hc])).next hc
          rw [Nat.mul_comm] at hnext
          rw [Nat.ofDigitChars_append, Nat.ofDigitChars_cons]
          exact hnext

end Digits

/-! ## Reading digits -/

section Append

variable {base : Nat} {high low : Int} {text : List Char} {n : Nat}

theorem appendUp_append (value : Int) (front back : List Char) :
    appendUp base high value (front ++ back) =
      appendUp base high value front >>= fun read => appendUp base high read back := by
  induction front generalizing value with
  | nil => rfl
  | cons c front ih =>
      rw [List.cons_append, appendUp, appendUp]
      split
      · rfl
      · split
        · exact ih _
        · rfl

/-- The fault on the other side of zero. -/
def mirrored : IntegerFault → IntegerFault
  | .tooLarge => .tooSmall
  | .tooSmall => .tooLarge
  | fault => fault

/-- Below zero, everything is as above it. -/
theorem appendDown_neg (base : Nat) (low value : Int) (text : List Char) :
    appendDown base low (-value) text =
      ((appendUp base (-low) value text).map Neg.neg).mapError mirrored := by
  induction text generalizing value with
  | nil => rfl
  | cons c text ih =>
      rw [appendDown, appendUp]
      split
      · rfl
      · next d _ =>
        have hnext : -value * base - d = -(value * base + d) := by
          rw [Int.neg_mul, Int.neg_add, Int.sub_eq_add_neg]
        have hbound : low ≤ -(value * base + d) ↔ value * base + d ≤ -low := by omega
        simp only [hnext, hbound]
        split
        · exact ih _
        · rfl

variable (hbase : base ≤ 16)
include hbase

theorem appendUp_digit {c : Char} {d : Nat} (hc : IsDigit base c d) (value : Int) :
    appendUp base high value [c] =
      if value * base + d ≤ high then .ok (value * base + d) else .error .tooLarge := by
  rw [appendUp, (digitValue?_eq_some_iff hbase).mpr hc]
  rfl

theorem appendUp_not_digit {c : Char} (hc : ∀ d, ¬ IsDigit base c d) (value : Int)
    (rest : List Char) : appendUp base high value (c :: rest) = .error .invalidDigit := by
  have hnone : digitValue? base c = none := by
    rw [Option.eq_none_iff_forall_ne_some]
    intro d hd
    exact hc d ((digitValue?_eq_some_iff hbase).mp hd)
  rw [appendUp, hnone]

/-- The number only grows, so that it ends beyond the bound if it ever is beyond it. -/
theorem Digits.appendUp_eq (h : Digits base text n) :
    appendUp base high 0 text = if (n : Int) ≤ high then .ok (n : Int) else .error .tooLarge := by
  induction h with
  | first hc =>
      rw [appendUp_digit hbase hc]
      simp
  | @next text n c d htext hc ih =>
      rw [appendUp_append, ih]
      have hgrows : n ≤ n * base + d := by
        have hmul := Nat.le_mul_of_pos_right n hc.pos
        omega
      by_cases hn : (n : Int) ≤ high
      · rw [if_pos hn]
        change appendUp base high n [c] = _
        rw [appendUp_digit hbase hc]
        push_cast
        rfl
      · rw [if_neg hn, if_neg (by omega)]
        rfl

/-- What breaks the digits is found, unless those in front of it are beyond the bound already. -/
theorem appendUp_of_not_digits (high : Int) (hne : text ≠ []) (h : ∀ n, ¬ Digits base text n) :
    appendUp base high 0 text = .error .invalidDigit ∨
      appendUp base high 0 text = .error .tooLarge ∧
        ∃ front rest n, text = front ++ rest ∧ rest ≠ [] ∧ Digits base front n ∧ high < n := by
  induction text using List.reverseRecOn with
  | nil => exact absurd rfl hne
  | append_singleton front c ih =>
      by_cases hfront : front = []
      · subst hfront
        refine .inl (appendUp_not_digit hbase ?_ 0 [])
        intro d hd
        exact h d (.first hd)
      rw [appendUp_append]
      by_cases hdigits : ∃ n, Digits base front n
      · obtain ⟨n, hn⟩ := hdigits
        rw [hn.appendUp_eq hbase]
        by_cases hle : (n : Int) ≤ high
        · rw [if_pos hle]
          refine .inl (appendUp_not_digit hbase ?_ n [])
          intro d hd
          exact h _ (.next hn hd)
        · rw [if_neg hle]
          exact .inr ⟨rfl, front, [c], n, rfl, by simp, hn, by omega⟩
      · rcases ih hfront (fun n hn => hdigits ⟨n, hn⟩) with herror | ⟨herror, hbeyond⟩
        · rw [herror]
          exact .inl rfl
        · obtain ⟨before, rest, n, rfl, -, hn, hhigh⟩ := hbeyond
          rw [herror]
          exact .inr ⟨rfl, before, rest ++ [c], n, by simp, by simp, hn, hhigh⟩

end Append

/-! ## Signs -/

/-- A text behind which no sign is left to take. -/
def StartsUnsigned (text : List Char) : Prop := text.head? ≠ some '+' ∧ text.head? ≠ some '-'

/-- A sign is taken off a text wherever there is one. -/
theorem exists_sign (text : List Char) :
    ∃ sign negative rest, text = sign ++ rest ∧ Sign sign negative ∧
      (sign = [] → StartsUnsigned rest) := by
  match text with
  | [] => exact ⟨[], false, [], rfl, .none, fun _ => ⟨nofun, nofun⟩⟩
  | c :: rest =>
    by_cases hplus : c = '+'
    · subst hplus
      exact ⟨['+'], false, rest, rfl, .plus, nofun⟩
    · by_cases hminus : c = '-'
      · subst hminus
        exact ⟨['-'], true, rest, rfl, .minus, nofun⟩
      · exact ⟨[], false, c :: rest, rfl, .none,
          fun _ => ⟨by simpa using hplus, by simpa using hminus⟩⟩

section Read

variable {base : Nat} {low high : Int} {text digits sign : List Char} {negative : Bool} {n : Int}

/-- Behind the sign, digits are appended to zero on its side. -/
theorem readInteger_sign (hsign : Sign sign negative) (hne : digits ≠ [])
    (hunsigned : sign = [] → StartsUnsigned digits) (hlow : negative = true → low < 0) :
    readInteger base low high (sign ++ digits) =
      if negative then appendDown base low 0 digits else appendUp base high 0 digits := by
  obtain ⟨c, rest, rfl⟩ := List.exists_cons_of_ne_nil hne
  cases hsign with
  | none =>
      obtain ⟨hplus, hminus⟩ := hunsigned rfl
      rw [List.nil_append, readInteger]
      · rfl
      all_goals simp_all
  | plus => rfl
  | minus => exact if_pos (hlow rfl)

variable (hbase : base ≤ 16)
include hbase

theorem Digits.startsUnsigned {n : Nat} (h : Digits base digits n) : StartsUnsigned digits := by
  have hnot : ∀ c ∈ ['+', '-'], digits.head? ≠ some c := by
    intro c hc hhead
    obtain ⟨d, hd⟩ := h.exists_isDigit (List.mem_of_mem_head? hhead)
    have hvalue := (digitValue?_eq_some_iff hbase).mpr hd
    have hnone : digitValue? base c = none := by
      simp only [List.mem_cons, List.not_mem_nil, or_false] at hc
      rcases hc with rfl | rfl <;> simp [digitValue?]
    rw [hnone] at hvalue
    contradiction
  exact ⟨hnot _ (by simp), hnot _ (by simp)⟩

/-- Digits behind a sign are read as their integer, or refused if it is out of bounds. -/
theorem Signed.readInteger_eq (h : Signed base text n) (hlow : low < 0) (hhigh : 0 ≤ high) :
    readInteger base low high text =
      if high < n then .error .tooLarge else if n < low then .error .tooSmall else .ok n := by
  obtain ⟨hsign, hdigits⟩ := h
  next sign digits negative n =>
  rw [readInteger_sign hsign hdigits.ne_nil (fun _ => hdigits.startsUnsigned hbase) fun _ => hlow]
  cases negative with
  | false =>
      rw [if_neg Bool.false_ne_true, if_neg Bool.false_ne_true, hdigits.appendUp_eq hbase]
      by_cases hle : (n : Int) ≤ high
      · rw [if_pos hle, if_neg (by omega), if_neg (by omega)]
      · rw [if_neg hle, if_pos (by omega)]
  | true =>
      have hdown := appendDown_neg base low 0 digits
      rw [Int.neg_zero, hdigits.appendUp_eq hbase] at hdown
      rw [if_pos rfl, if_pos rfl, hdown]
      by_cases hle : (n : Int) ≤ -low
      · rw [if_pos hle, if_neg (by omega), if_neg (by omega)]
        rfl
      · rw [if_neg hle, if_neg (by omega), if_pos (by omega)]
        rfl

/-- A text stands for one integer at most. -/
theorem Signed.unique {m : Int} (h : Signed base text m) (h' : Signed base text n) : m = n := by
  obtain ⟨bound, hm, hn⟩ : ∃ bound : Nat, m.natAbs ≤ bound ∧ n.natAbs ≤ bound :=
    ⟨m.natAbs + n.natAbs, by omega, by omega⟩
  have hread : ∀ {k : Int}, Signed base text k → k.natAbs ≤ bound →
      readInteger base (-bound - 1) bound text = .ok k := by
    intro k hk hle
    rw [hk.readInteger_eq hbase (by omega) (by omega), if_neg (by omega), if_neg (by omega)]
  exact Except.ok.inj ((hread h hm).symm.trans (hread h' hn))

/-- All other texts are refused. -/
theorem exists_refused (high : Int) (hlow : low < 0) (h : ∀ n, ¬ Signed base text n) :
    ∃ fault, readInteger base low high text = .error fault ∧ Refused base low high text fault := by
  obtain ⟨sign, negative, digits, rfl, hsign, hunsigned⟩ := exists_sign text
  by_cases hne : digits = []
  · subst hne
    cases hsign with
    | none => exact ⟨.empty, rfl, .empty⟩
    | plus | minus => exact ⟨.invalidDigit, rfl, .invalidDigit _⟩
  have hdigits : ∀ n, ¬ Digits base digits n := fun n hn => h _ (.intro hsign hn)
  rw [readInteger_sign hsign hne hunsigned fun _ => hlow]
  cases negative with
  | false =>
      rw [if_neg Bool.false_ne_true]
      rcases appendUp_of_not_digits hbase high hne hdigits with herror | ⟨herror, hbeyond⟩
      · exact ⟨_, herror, .invalidDigit _⟩
      · obtain ⟨front, rest, n, rfl, hrest, hn, hhigh⟩ := hbeyond
        rw [← List.append_assoc]
        exact ⟨_, herror, .tooLarge (.intro hsign hn) hrest hhigh⟩
  | true =>
      have hdown := appendDown_neg base low 0 digits
      rw [Int.neg_zero] at hdown
      rw [if_pos rfl, hdown]
      rcases appendUp_of_not_digits hbase (-low) hne hdigits with herror | ⟨herror, hbeyond⟩
      · rw [herror]
        exact ⟨_, rfl, .invalidDigit _⟩
      · obtain ⟨front, rest, n, rfl, hrest, hn, hhigh⟩ := hbeyond
        rw [herror, ← List.append_assoc]
        exact ⟨_, rfl, .tooSmall (.intro hsign hn) hrest (by rw [if_pos rfl]; omega)⟩

end Read

/-! ## Integers of 64 bits -/

/-- An integer from `-2 ^ 63` up to `2 ^ 63 - 1`. -/
def FitsInt64 (n : Int) : Prop := -0x8000000000000000 ≤ n ∧ n ≤ 0x7FFFFFFFFFFFFFFF

theorem toInt_ofInt {n : Int} (h : FitsInt64 n) : (Int64.ofInt n).toInt = n :=
  Int64.toInt_ofInt_of_le h.1 (Int.lt_of_le_of_lt h.2 (by decide))

section Int64

variable {base : Nat} {text : List Char} {n : Int}

/-- The bounds are those of 64 bits. -/
theorem readInt64_eq (base : Nat) (text : List Char) :
    readInt64 base text =
      (readInteger base (-0x8000000000000000) 0x7FFFFFFFFFFFFFFF text).map Int64.ofInt := by
  have hmax : Int64.maxValue.toInt = 0x7FFFFFFFFFFFFFFF := by decide
  have hmin : Int64.minValue.toInt = -0x8000000000000000 := by decide
  rw [readInt64, hmax, hmin]

variable (hbase : base ≤ 16)
include hbase

theorem Signed.readInt64_eq (h : Signed base text n) :
    readInt64 base text =
      if 0x7FFFFFFFFFFFFFFF < n then .error .tooLarge
      else if n < -0x8000000000000000 then .error .tooSmall else .ok (.ofInt n) := by
  rw [Numeral.readInt64_eq, h.readInteger_eq hbase (by decide) (by decide)]
  split
  · rfl
  · split <;> rfl

theorem exists_refused_int64 (h : ∀ n, ¬ Signed base text n) :
    ∃ fault, readInt64 base text = .error fault ∧
      Refused base (-0x8000000000000000) 0x7FFFFFFFFFFFFFFF text fault := by
  have hlow : (-0x8000000000000000 : Int) < 0 := by decide
  obtain ⟨fault, herror, hrefused⟩ := exists_refused hbase 0x7FFFFFFFFFFFFFFF hlow h
  rw [readInt64_eq, herror]
  exact ⟨fault, rfl, hrefused⟩

/-- What is read is what the text stands for. -/
theorem readInt64_eq_ok_iff {v : Int64} :
    readInt64 base text = .ok v ↔ Signed base text v.toInt := by
  constructor
  · intro h
    by_cases hsigned : ∃ n, Signed base text n
    · obtain ⟨n, hn⟩ := hsigned
      rw [hn.readInt64_eq hbase] at h
      split at h
      · contradiction
      · split at h
        · contradiction
        · obtain rfl := Except.ok.inj h
          rwa [toInt_ofInt ⟨by omega, by omega⟩]
    · obtain ⟨fault, herror, -⟩ := exists_refused_int64 hbase fun n hn => hsigned ⟨n, hn⟩
      rw [herror] at h
      contradiction
  · intro h
    have hlow : -0x8000000000000000 ≤ v.toInt := Int64.le_toInt v
    have hhigh : v.toInt < 0x8000000000000000 := Int64.toInt_lt v
    rw [h.readInt64_eq hbase, if_neg (by omega), if_neg (by omega), v.ofInt_toInt]

end Int64

end Numeral

end TimingChart
