import Mathlib.Data.List.Forall2
import Mathlib.Data.List.TakeWhile
import TimingChart.Proofs.Binary64.Nearest
import TimingChart.Proofs.Decimal.Integers

/-! # Which texts are doubles

A double is written as digits with at most one point among them, an optional exponent behind them
and an optional sign in front, or as a word. What is read is the double nearest to the decimal,
unless the exponent is too large to be kept. -/

namespace TimingChart

theorem takeWhile_digits {digits : List Char} (hdigits : ∀ c ∈ digits, c.isDigit)
    (rest : List Char) (hrest : rest.head?.all fun c => !c.isDigit) :
    (digits ++ rest).takeWhile Char.isDigit = digits := by
  rw [List.takeWhile_append_of_pos hdigits]
  cases rest with
  | nil => simp
  | cons c rest => simp_all

theorem dropWhile_digits {digits : List Char} (hdigits : ∀ c ∈ digits, c.isDigit)
    (rest : List Char) (hrest : rest.head?.all fun c => !c.isDigit) :
    (digits ++ rest).dropWhile Char.isDigit = rest := by
  rw [List.dropWhile_append_of_pos hdigits]
  cases rest with
  | nil => rfl
  | cons c rest => simp_all

/-! ## Decimals without sign -/

namespace Decimal

open Numeral (Digits Sign Signed StartsUnsigned)

/-- Digits with at most one point among them: the number that all digits stand for, and how many of
them are behind the point. -/
inductive Mantissa : List Char → Nat → Nat → Prop where
  | whole {digits : List Char} {n : Nat} (h : Digits 10 digits n) : Mantissa digits n 0
  | point {whole fraction : List Char} {n : Nat} (h : Digits 10 (whole ++ fraction) n) :
      Mantissa (whole ++ '.' :: fraction) n fraction.length

/-- Nothing, or an integer behind a mark. -/
inductive Exponent : List Char → Int → Prop where
  | absent : Exponent [] 0
  | given {mark : Char} {text : List Char} {k : Int} (hmark : mark = 'e' ∨ mark = 'E')
      (h : Signed 10 text k) : Exponent (mark :: text) k

/-- What a text stands for, and the exponent that is written in it. -/
inductive Denotes : List Char → Decimal → Int → Prop where
  | intro {mantissa exponent : List Char} {n places : Nat} {k : Int}
      (hmantissa : Mantissa mantissa n places) (hexponent : Exponent exponent k) :
      Denotes (mantissa ++ exponent) ⟨n, k - places⟩ k

/-! ## Exponents -/

theorem readExponentDigits_eq {digits : List Char} {n : Nat} (h : Digits 10 digits n)
    (hn : n < exponentBound) : readExponentDigits digits = n := by
  have hbound : exponentBound = 65536 := rfl
  induction h with
  | first hc =>
      obtain ⟨-, rfl⟩ := Numeral.isDigit_ten_iff.mp hc
      simp [readExponentDigits, exponentBound]
  | @next text n c d _ hc ih =>
      obtain ⟨-, rfl⟩ := Numeral.isDigit_ten_iff.mp hc
      have hfront := ih (by omega)
      rw [readExponentDigits] at hfront
      rw [readExponentDigits, List.foldl_append, hfront, List.foldl_cons, List.foldl_nil,
        if_pos (by omega), Nat.mul_comm]
      rfl

theorem readExponent?_sign {mark : Char} (hmark : mark = 'e' ∨ mark = 'E') {sign digits : List Char}
    {negative : Bool} (hsign : Sign sign negative) (hunsigned : sign = [] → StartsUnsigned digits) :
    readExponent? (mark :: (sign ++ digits)) =
      if digits ≠ [] ∧ digits.all Char.isDigit then
        some (if negative then -(readExponentDigits digits : Int) else readExponentDigits digits)
      else none := by
  cases hsign with
  | none =>
      obtain ⟨hplus, hminus⟩ := hunsigned rfl
      rw [List.nil_append, readExponent?, if_pos hmark]
      all_goals
        rintro rest rfl
        simp at hplus hminus
  | plus | minus => exact if_pos hmark

/-- Each exponent is read, and below the bound as what it is. -/
theorem Exponent.exists_readExponent? {text : List Char} {k : Int} (h : Exponent text k) :
    ∃ k', readExponent? text = some k' ∧ (k.natAbs < exponentBound → k' = k) := by
  cases h with
  | absent => exact ⟨0, rfl, fun _ => rfl⟩
  | given hmark h =>
      obtain ⟨hsign, hdigits⟩ := h
      next sign digits negative n =>
      have hall := (Numeral.digits_ten_iff.mp hdigits).2.1
      rw [readExponent?_sign hmark hsign fun _ => hdigits.startsUnsigned (by decide),
        if_pos ⟨hdigits.ne_nil, List.all_eq_true.mpr hall⟩]
      refine ⟨_, rfl, fun hk => ?_⟩
      rw [readExponentDigits_eq hdigits (by cases negative <;> simpa using hk)]

theorem exists_exponent {text : List Char} {k' : Int} (h : readExponent? text = some k') :
    ∃ k, Exponent text k := by
  match text with
  | [] => exact ⟨0, .absent⟩
  | mark :: rest =>
    have hmark : mark = 'e' ∨ mark = 'E' := by
      unfold readExponent? at h
      exact (Option.ite_none_right_eq_some.mp h).1
    obtain ⟨sign, negative, digits, rfl, hsign, hunsigned⟩ := Numeral.exists_sign rest
    rw [readExponent?_sign hmark hsign hunsigned] at h
    obtain ⟨⟨hne, hall⟩, -⟩ := Option.ite_none_right_eq_some.mp h
    have hdigits := Numeral.digits_ten_iff.mpr ⟨hne, List.all_eq_true.mp hall, rfl⟩
    exact ⟨_, .given hmark (.intro hsign hdigits)⟩

/-- Where an exponent may begin, no digit and no point comes. -/
theorem head?_of_readExponent? {text : List Char} {k : Int} (h : readExponent? text = some k) :
    text.head?.all (fun c => !c.isDigit) ∧ text.head? ≠ some '.' := by
  obtain ⟨_, hexponent⟩ := exists_exponent h
  cases hexponent with
  | absent => exact ⟨rfl, nofun⟩
  | given hmark _ => rcases hmark with rfl | rfl <;> exact ⟨rfl, by simp⟩

/-! ## Points -/

theorem splitFraction_point (rest : List Char) :
    splitFraction ('.' :: rest) = (rest.takeWhile Char.isDigit, rest.dropWhile Char.isDigit) :=
  rfl

theorem splitFraction_of_head?_ne {text : List Char} (h : text.head? ≠ some '.') :
    splitFraction text = ([], text) := by
  unfold splitFraction
  split
  · simp at h
  · rfl

/-- Digits and an exponent are told apart. -/
theorem Mantissa.read?_append {mantissa exponent : List Char} {n places : Nat} {k : Int}
    (h : Mantissa mantissa n places) (hexponent : readExponent? exponent = some k) :
    read? (mantissa ++ exponent) = some ⟨n, k - places⟩ := by
  obtain ⟨hdigit, hpoint⟩ := head?_of_readExponent? hexponent
  cases h with
  | whole h =>
      obtain ⟨hne, hall, rfl⟩ := Numeral.digits_ten_iff.mp h
      rw [read?, takeWhile_digits hall exponent hdigit, dropWhile_digits hall exponent hdigit,
        splitFraction_of_head?_ne hpoint]
      simp [hne, hexponent]
  | @point whole fraction _ h =>
      obtain ⟨hne, hall, rfl⟩ := Numeral.digits_ten_iff.mp h
      have hwhole : ∀ c ∈ whole, c.isDigit := fun c hc => hall c (List.mem_append_left _ hc)
      have hfraction : ∀ c ∈ fraction, c.isDigit := fun c hc => hall c (List.mem_append_right _ hc)
      rw [List.append_assoc, List.cons_append, read?, takeWhile_digits hwhole _ rfl,
        dropWhile_digits hwhole _ rfl]
      simp only [splitFraction_point, takeWhile_digits hfraction exponent hdigit,
        dropWhile_digits hfraction exponent hdigit, if_neg hne, hexponent, Option.map_some]

/-- Each decimal is read, and as what it is if its exponent is below the bound. -/
theorem Denotes.exists_read? {text : List Char} {d : Decimal} {k : Int} (h : Denotes text d k) :
    ∃ d', read? text = some d' ∧ (k.natAbs < exponentBound → d' = d) := by
  obtain ⟨hmantissa, hexponent⟩ := h
  obtain ⟨k', hread, hk⟩ := hexponent.exists_readExponent?
  refine ⟨_, hmantissa.read?_append hread, fun hbound => ?_⟩
  rw [hk hbound]

theorem exists_denotes {text : List Char} {d' : Decimal} (h : read? text = some d') :
    ∃ d k, Denotes text d k := by
  have htext : text.takeWhile Char.isDigit ++ text.dropWhile Char.isDigit = text :=
    List.takeWhile_append_dropWhile
  have hwhole : ∀ c ∈ text.takeWhile Char.isDigit, c.isDigit := fun c hc =>
    List.mem_takeWhile_imp hc
  rw [read?] at h
  generalize text.takeWhile Char.isDigit = whole at *
  generalize text.dropWhile Char.isDigit = behind at *
  subst htext
  by_cases hpoint : behind.head? = some '.'
  · obtain ⟨rest, rfl⟩ : ∃ rest, behind = '.' :: rest := by
      cases behind with
      | nil => contradiction
      | cons c rest => exact ⟨rest, by rw [Option.some.inj hpoint]⟩
    have hfraction : ∀ c ∈ rest.takeWhile Char.isDigit, c.isDigit := fun c hc =>
      List.mem_takeWhile_imp hc
    rw [splitFraction_point] at h
    obtain ⟨hne, hread⟩ := Option.ite_none_left_eq_some.mp h
    obtain ⟨k', hk', -⟩ := Option.map_eq_some_iff.mp hread
    obtain ⟨k, hexponent⟩ := exists_exponent hk'
    have hmantissa := Mantissa.point (Numeral.digits_ten_iff.mpr ⟨hne, fun c hc =>
      (List.mem_append.mp hc).elim (hwhole c) (hfraction c), rfl⟩)
    have hdenotes := Denotes.intro hmantissa hexponent
    rw [List.append_assoc, List.cons_append, List.takeWhile_append_dropWhile] at hdenotes
    exact ⟨_, _, hdenotes⟩
  · rw [splitFraction_of_head?_ne hpoint] at h
    obtain ⟨hne, hread⟩ := Option.ite_none_left_eq_some.mp h
    obtain ⟨k', hk', -⟩ := Option.map_eq_some_iff.mp hread
    obtain ⟨k, hexponent⟩ := exists_exponent hk'
    rw [List.append_nil] at hne
    exact ⟨_, _, .intro (.whole (Numeral.digits_ten_iff.mpr ⟨hne, hwhole, rfl⟩)) hexponent⟩

theorem toRat_nonneg (d : Decimal) : 0 ≤ d.toRat := by
  rw [toRat, step]
  split
  · rw [Rat.mkRat_eq_div]
    positivity
  · positivity

end Decimal

/-! ## Words -/

theorem toLower_eq_iff {c letter : Char} (h : letter.isLower) :
    c.toLower = letter ↔ c = letter ∨ c = letter.toUpper := by
  constructor
  · intro hc
    by_cases hupper : 'A'.val ≤ c.val ∧ c.val ≤ 'Z'.val
    · have hlow : 65 ≤ c.toNat := hupper.1
      have hhigh : c.toNat ≤ 90 := hupper.2
      subst hc
      refine .inr (char_of_codes c hlow hhigh ?_)
      decide +kernel
    · have hsame : c.toLower = c := dif_neg hupper
      exact .inl (hsame ▸ hc)
  · obtain ⟨hfrom, hto⟩ := Bool.and_eq_true_iff.mp h
    have hlow : 97 ≤ letter.toNat := of_decide_eq_true hfrom
    have hhigh : letter.toNat ≤ 122 := of_decide_eq_true hto
    have hself : letter.toLower = letter ∧ letter.toUpper.toLower = letter := by
      refine char_of_codes letter hlow hhigh ?_
      decide +kernel
    rintro (rfl | rfl)
    · exact hself.1
    · exact hself.2

/-- A word of small letters, each of them in either case. -/
def IsWord (word text : List Char) : Prop :=
  List.Forall₂ (fun letter c => c = letter ∨ c = letter.toUpper) word text

theorem isWord_iff {word : List Char} (hword : ∀ letter ∈ word, letter.isLower)
    {text : List Char} : IsWord word text ↔ text.map Char.toLower = word := by
  induction word generalizing text with
  | nil => simp [IsWord]
  | cons letter word ih =>
      obtain ⟨hletter, hrest⟩ := List.forall_mem_cons.mp hword
      cases text with
      | nil => simp [IsWord]
      | cons c text =>
          rw [IsWord, List.forall₂_cons, List.map_cons, List.cons.injEq, toLower_eq_iff hletter,
            ← ih hrest, IsWord]

/-! ## Doubles -/

namespace Binary64

open Decimal (Denotes)
open Numeral (Sign StartsUnsigned)

/-- A decimal with an optional sign, whether it is a minus sign, and the exponent in the text. -/
inductive NumberText : List Char → Bool → Decimal → Int → Prop where
  | intro {sign text : List Char} {negative : Bool} {d : Decimal} {k : Int}
      (hsign : Sign sign negative) (h : Denotes text d k) : NumberText (sign ++ text) negative d k

/-- A word for no finite number, and the double that it stands for behind such a sign. -/
inductive Word (negative : Bool) : List Char → Binary64 → Prop where
  | inf {text : List Char} (h : IsWord "inf".toList text) : Word negative text (infinite negative)
  | infinity {text : List Char} (h : IsWord "infinity".toList text) :
      Word negative text (infinite negative)
  | nan {text : List Char} (h : IsWord "nan".toList text) : Word negative text nan

/-- A word with an optional sign, and the double that it stands for. -/
inductive WordText : List Char → Binary64 → Prop where
  | intro {sign text : List Char} {negative : Bool} {x : Binary64} (hsign : Sign sign negative)
      (h : Word negative text x) : WordText (sign ++ text) x

/-- The rational that a decimal with a sign stands for. -/
def signedValue (negative : Bool) (d : Decimal) : Rat := if negative then -d.toRat else d.toRat

theorem hasSign_signedValue (negative : Bool) (d : Decimal) :
    HasSign negative (signedValue negative d) := by
  cases negative with
  | false => exact d.toRat_nonneg
  | true => exact neg_nonpos.mpr d.toRat_nonneg

theorem abs_signedValue (negative : Bool) (d : Decimal) :
    |signedValue negative d| = d.toRat := by
  cases negative with
  | false => exact abs_of_nonneg d.toRat_nonneg
  | true => rw [signedValue, if_pos rfl, abs_neg, abs_of_nonneg d.toRat_nonneg]

theorem readWord?_eq_some_iff {negative : Bool} {text : List Char} {x : Binary64} :
    readWord? negative text = some x ↔ Word negative text x := by
  constructor
  · intro h
    unfold readWord? at h
    split at h
    · next hword =>
      obtain rfl := Option.some.inj h
      exact .inf ((isWord_iff (by decide)).mpr hword)
    · next hword =>
      obtain rfl := Option.some.inj h
      exact .infinity ((isWord_iff (by decide)).mpr hword)
    · next hword =>
      obtain rfl := Option.some.inj h
      exact .nan ((isWord_iff (by decide)).mpr hword)
    · contradiction
  · intro h
    rw [readWord?]
    cases h with
    | inf hword | infinity hword | nan hword =>
        rw [(isWord_iff (by decide)).mp hword]
        rfl

theorem Word.exists_cons {negative : Bool} {text : List Char} {x : Binary64}
    (h : Word negative text x) : ∃ c rest, text = c :: rest ∧ c ∈ ['i', 'I', 'n', 'N'] := by
  cases h with
  | inf hword | infinity hword | nan hword =>
      cases hword with
      | cons hfirst _ => exact ⟨_, _, rfl, by rcases hfirst with rfl | rfl <;> decide⟩

/-- No word is taken for a decimal. -/
theorem Word.readUnsigned?_eq {negative : Bool} {text : List Char} {x : Binary64}
    (h : Word negative text x) : readUnsigned? negative text = some x := by
  have hnone : Decimal.read? text = none := by
    obtain ⟨c, rest, rfl, hc⟩ := h.exists_cons
    simp only [List.mem_cons, List.not_mem_nil, or_false] at hc
    rcases hc with rfl | rfl | rfl | rfl <;> rfl
  rw [readUnsigned?, hnone]
  exact readWord?_eq_some_iff.mpr h

/-! ### Signs -/

theorem read_sign {sign text : List Char} {negative : Bool} (hsign : Sign sign negative)
    (hne : text ≠ []) (hunsigned : sign = [] → StartsUnsigned text) :
    read (sign ++ text) = (readUnsigned? negative text).elim (.error .invalid) .ok := by
  cases hsign with
  | none =>
      obtain ⟨hplus, hminus⟩ := hunsigned rfl
      rw [List.nil_append, read]
      · exact hne
      all_goals
        rintro rest rfl
        simp at hplus hminus
  | plus | minus => rfl

/-- Each decimal is read, and below the bound for exponents as the nearest double. -/
theorem NumberText.exists_read {text : List Char} {negative : Bool} {d : Decimal} {k : Int}
    (h : NumberText text negative d k) :
    ∃ x, read text = .ok x ∧
      (k.natAbs < Decimal.exponentBound → IsNearest negative (signedValue negative d) x) := by
  obtain ⟨hsign, hdenotes⟩ := h
  next sign text =>
  obtain ⟨d', hread, hd⟩ := hdenotes.exists_read?
  have hne : text ≠ [] := by
    rintro rfl
    contradiction
  have hunsigned : StartsUnsigned text := by
    cases text with
    | nil => contradiction
    | cons c rest =>
        constructor
        all_goals
          rintro ⟨⟩
          contradiction
  refine ⟨nearest negative (signedValue negative d'), ?_, fun hk => ?_⟩
  · rw [read_sign hsign hne fun _ => hunsigned, readUnsigned?, hread]
    rfl
  · rw [isNearest_iff (hasSign_signedValue negative d), hd hk]

theorem WordText.read_eq {text : List Char} {x : Binary64} (h : WordText text x) :
    read text = .ok x := by
  obtain ⟨hsign, hword⟩ := h
  next sign text negative =>
  obtain ⟨c, rest, rfl, hc⟩ := hword.exists_cons
  have hunsigned : StartsUnsigned (c :: rest) := by
    constructor
    all_goals
      rintro ⟨⟩
      revert hc
      decide
  rw [read_sign hsign (List.cons_ne_nil c rest) fun _ => hunsigned, hword.readUnsigned?_eq]
  rfl

/-- Nothing else is read. -/
theorem exists_text_of_read {text : List Char} {x : Binary64} (h : read text = .ok x) :
    (∃ negative d k, NumberText text negative d k) ∨ ∃ y, WordText text y := by
  obtain ⟨sign, negative, digits, rfl, hsign, hunsigned⟩ := Numeral.exists_sign text
  by_cases hne : digits = []
  · subst hne
    cases hsign <;> contradiction
  rw [read_sign hsign hne hunsigned] at h
  cases hread : readUnsigned? negative digits with
  | none =>
      rw [hread] at h
      contradiction
  | some y =>
      rw [readUnsigned?] at hread
      split at hread
      · next d hd =>
        obtain ⟨d', k, hdenotes⟩ := Decimal.exists_denotes hd
        exact .inl ⟨negative, d', k, .intro hsign hdenotes⟩
      · exact .inr ⟨y, .intro hsign (readWord?_eq_some_iff.mp hread)⟩

theorem exists_read_iff {text : List Char} :
    (∃ x, read text = .ok x) ↔
      (∃ negative d k, NumberText text negative d k) ∨ ∃ x, WordText text x := by
  constructor
  · intro h
    rcases h with ⟨x, hx⟩
    exact exists_text_of_read hx
  · rintro (⟨negative, d, k, hnumber⟩ | ⟨x, hword⟩)
    · obtain ⟨x, hread, -⟩ := hnumber.exists_read
      exact ⟨x, hread⟩
    · exact ⟨x, hword.read_eq⟩

theorem read_eq_error {text : List Char} {fault : FloatFault} (h : read text = .error fault) :
    fault = if text = [] then .empty else .invalid := by
  have hinvalid : ∀ x? : Option Binary64,
      x?.elim (.error .invalid) .ok = (.error fault : Except FloatFault Binary64) →
        fault = .invalid := by
    intro x? hx
    cases x? with
    | none => exact (Except.error.inj hx).symm
    | some x => contradiction
  unfold read at h
  split at h
  · exact (Except.error.inj h).symm
  · exact hinvalid _ h
  · exact hinvalid _ h
  · next hempty _ _ =>
    rw [if_neg hempty]
    exact hinvalid _ h

end Binary64

end TimingChart
