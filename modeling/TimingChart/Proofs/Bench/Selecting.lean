import TimingChart.Bench.Selection
import TimingChart.Proofs.Decimal.Integers
import TimingChart.Proofs.Text.Trimming

/-! # Answers that select a mode

A mode is selected by its number alone: with blanks around it, zeros in front of it and a plus sign
in front of these, but with nothing else. All other answers are warned about, once each. -/

namespace TimingChart

/-! ## Numbers of one digit -/

namespace Numeral

theorem IsDigit.eq_digitChar {c : Char} {d : Nat} (h : IsDigit 10 c d) : c = d.digitChar := by
  obtain ⟨hd, rfl | rfl⟩ := h
  · rfl
  · interval_cases d <;> rfl

theorem Digits.eq_replicate {text : List Char} {n : Nat} (h : Digits 10 text n) (hn : n = 0) :
    ∃ zeros, text = List.replicate zeros '0' := by
  induction h with
  | first hc =>
      subst hn
      exact ⟨1, congrArg ([·]) hc.eq_digitChar⟩
  | @next text n c d _ hc ih =>
      obtain ⟨zeros, rfl⟩ := ih (by omega)
      obtain rfl : d = 0 := by omega
      obtain rfl : c = '0' := hc.eq_digitChar
      exact ⟨zeros + 1, List.replicate_succ'.symm⟩

/-- A number of one digit is this digit with zeros in front. -/
theorem digits_iff_of_lt_ten {text : List Char} {n : Nat} (hn : n < 10) :
    Digits 10 text n ↔ ∃ zeros, text = List.replicate zeros '0' ++ [n.digitChar] := by
  constructor
  · intro h
    cases h with
    | first hc => exact ⟨0, congrArg ([·]) hc.eq_digitChar⟩
    | @next text m c d htext hc =>
        obtain rfl : m = 0 := by omega
        obtain ⟨zeros, rfl⟩ := htext.eq_replicate rfl
        refine ⟨zeros, ?_⟩
        rw [hc.eq_digitChar, Nat.zero_mul, Nat.zero_add]
  · intro h
    obtain ⟨zeros, rfl⟩ := h
    exact (Digits.first ⟨hn, .inl rfl⟩).zeros_append zeros

end Numeral

/-! ## Selections -/

namespace Selection

open Numeral (Signed Sign)

/-- A number of one digit, the way an answer may have it. -/
inductive Names (number : Nat) : List Char → Prop where
  | intro {front sign back : List Char} (zeros : Nat) (hfront : ∀ c ∈ front, Blank.isBlank c)
      (hsign : sign = [] ∨ sign = ['+']) (hback : ∀ c ∈ back, Blank.isBlank c) :
      Names number
        (front ++ (sign ++ List.replicate zeros '0' ++ [number.digitChar]) ++ back)

theorem signed_iff {text : List Char} {number : Nat} (hpos : 0 < number) (hlt : number < 10) :
    Signed 10 text number ↔ ∃ sign zeros, (sign = [] ∨ sign = ['+']) ∧
      text = sign ++ List.replicate zeros '0' ++ [number.digitChar] := by
  constructor
  · intro h
    generalize hn : (number : Int) = n at h
    obtain ⟨hsign, hdigits⟩ := h
    next sign digits negative n =>
    cases hsign with
    | none =>
        obtain rfl : number = n := by simpa using hn
        obtain ⟨zeros, rfl⟩ := (Numeral.digits_iff_of_lt_ten hlt).mp hdigits
        exact ⟨[], zeros, .inl rfl, rfl⟩
    | plus =>
        obtain rfl : number = n := by simpa using hn
        obtain ⟨zeros, rfl⟩ := (Numeral.digits_iff_of_lt_ten hlt).mp hdigits
        exact ⟨['+'], zeros, .inr rfl, rfl⟩
    | minus =>
        rw [if_pos rfl] at hn
        omega
  · intro h
    obtain ⟨sign, zeros, hsign, rfl⟩ := h
    have hdigits := (Numeral.digits_iff_of_lt_ten hlt).mpr ⟨zeros, rfl⟩
    rw [List.append_assoc]
    rcases hsign with rfl | rfl
    · exact .intro .none hdigits
    · exact .intro .plus hdigits

theorem ofSelector?_eq_some_iff {selector : Int} {mode : Mode} :
    Mode.ofSelector? selector = some mode ↔
      ∃ index : Nat, Mode.all[index]? = some mode ∧ selector = index + 1 := by
  rw [Mode.ofSelector?]
  constructor
  · intro h
    obtain ⟨hpos, hmode⟩ := Option.ite_none_left_eq_some.mp h
    exact ⟨selector.toNat - 1, hmode, by omega⟩
  · intro h
    obtain ⟨index, hmode, rfl⟩ := h
    rw [if_neg (by omega)]
    exact hmode

theorem isBlank_of_names {sign : List Char} {number zeros : Nat} (hsign : sign = [] ∨ sign = ['+'])
    (hlt : number < 10) :
    ∀ c ∈ sign ++ List.replicate zeros '0' ++ [number.digitChar], Blank.isBlank c = false := by
  intro c hc
  simp only [List.mem_append, List.mem_replicate, List.mem_singleton] at hc
  rcases hc with (hc | ⟨-, rfl⟩) | rfl
  · rcases hsign with rfl | rfl
    · contradiction
    · obtain rfl := List.mem_singleton.mp hc
      decide
  · decide
  · interval_cases number <;> decide

/-- The blanks around a number are no part of it. -/
theorem names_iff {answer : List Char} {number : Nat} (hpos : 0 < number) (hlt : number < 10) :
    Names number answer ↔ Signed 10 (Blank.trimBy Blank.isBlank answer) number := by
  rw [signed_iff hpos hlt]
  constructor
  · rintro ⟨zeros, hfront, hsign, hback⟩
    rw [Blank.trimBy_append_append hfront _ hback,
      Blank.trimBy_of_forall (isBlank_of_names hsign hlt)]
    exact ⟨_, zeros, hsign, rfl⟩
  · intro h
    obtain ⟨sign, zeros, hsign, htrim⟩ := h
    obtain ⟨front, back, hanswer, hfront, hback⟩ := Blank.exists_trimBy Blank.isBlank answer
    rw [hanswer, htrim]
    exact .intro zeros hfront hsign hback

theorem lt_of_all {index : Nat} {mode : Mode} (h : Mode.all[index]? = some mode) : index < 4 := by
  obtain ⟨hlt, -⟩ := List.getElem?_eq_some_iff.mp h
  exact hlt

/-- The number that an answer is read as. -/
theorem names_succ_iff {answer : List Char} {index : Nat} (hlt : index < 4) :
    Names (index + 1) answer ↔
      ∃ selector, Numeral.readInt64 10 (Blank.trimBy Blank.isBlank answer) = .ok selector ∧
        selector.toInt = index + 1 := by
  rw [names_iff (Nat.succ_pos index) (by omega)]
  simp only [Numeral.readInt64_eq_ok_iff (by decide : 10 ≤ 16)]
  constructor
  · intro h
    have hvalue : (Int64.ofInt (index + 1)).toInt = index + 1 :=
      Numeral.toInt_ofInt ⟨by omega, by omega⟩
    refine ⟨.ofInt (index + 1), ?_, hvalue⟩
    rw [hvalue]
    exact h
  · intro h
    obtain ⟨selector, hsigned, hvalue⟩ := h
    rw [hvalue] at hsigned
    exact hsigned

/-- A mode is selected by the number that is read, and all else leads to a warning. -/
theorem parse_cases (answer : List Char) :
    (∃ index mode, Mode.all[index]? = some mode ∧ Names (index + 1) answer ∧
      parse answer = ⟨some mode, []⟩) ∨
    (∀ index < 4, ¬ Names (index + 1) answer) ∧
      ∃ message, parse answer = ⟨none, [⟨.warn, message⟩]⟩ := by
  rw [parse]
  cases hread : Numeral.readInt64 10 (Blank.trimBy Blank.isBlank answer) with
  | error fault =>
      refine .inr ⟨?_, _, rfl⟩
      intro index hlt hnames
      obtain ⟨selector, hselector, -⟩ := (names_succ_iff hlt).mp hnames
      rw [hread] at hselector
      contradiction
  | ok selector =>
      dsimp only
      cases hmode : Mode.ofSelector? selector.toInt with
      | some mode =>
          obtain ⟨index, hindex, hvalue⟩ := ofSelector?_eq_some_iff.mp hmode
          exact .inl ⟨index, mode, hindex,
            (names_succ_iff (lt_of_all hindex)).mpr ⟨selector, hread, hvalue⟩, rfl⟩
      | none =>
          refine .inr ⟨?_, _, rfl⟩
          intro index hlt hnames
          obtain ⟨_, hselector, hvalue⟩ := (names_succ_iff hlt).mp hnames
          obtain rfl := Except.ok.inj (hread.symm.trans hselector)
          have hsome := ofSelector?_eq_some_iff.mpr
            ⟨index, List.getElem?_eq_getElem hlt, hvalue⟩
          rw [hmode] at hsome
          contradiction

/-- No answer has two numbers. -/
theorem Names.index_unique {answer : List Char} {index index' : Nat} (hlt : index < 4)
    (hlt' : index' < 4) (h : Names (index + 1) answer) (h' : Names (index' + 1) answer) :
    index = index' := by
  obtain ⟨selector, hselector, hvalue⟩ := (names_succ_iff hlt).mp h
  obtain ⟨selector', hselector', hvalue'⟩ := (names_succ_iff hlt').mp h'
  obtain rfl := Except.ok.inj (hselector.symm.trans hselector')
  omega

/-- An answer selects the mode that it has the number of, and nothing is reported. All other answers
select none and are warned about. -/
theorem parse_spec (answer : List Char) :
    (∀ mode, (parse answer).mode = some mode ↔
      ∃ index, Mode.all[index]? = some mode ∧ Names (index + 1) answer) ∧
    ((parse answer).mode.isSome → (parse answer).log = []) ∧
    ((parse answer).mode = none → ∃ message, (parse answer).log = [⟨.warn, message⟩]) := by
  rcases parse_cases answer with ⟨index, mode, hindex, hnames, hparse⟩ | ⟨hnot, message, hparse⟩
  · rw [hparse]
    refine ⟨fun mode' => ?_, fun _ => rfl, nofun⟩
    constructor
    · rintro ⟨⟩
      exact ⟨index, hindex, hnames⟩
    · intro h
      obtain ⟨index', hindex', hnames'⟩ := h
      obtain rfl := hnames.index_unique (lt_of_all hindex) (lt_of_all hindex') hnames'
      exact hindex.symm.trans hindex'
  · rw [hparse]
    refine ⟨fun mode => ?_, nofun, fun _ => ⟨message, rfl⟩⟩
    constructor
    · nofun
    · intro h
      obtain ⟨index, hindex, hnames⟩ := h
      exact absurd hnames (hnot index (lt_of_all hindex))

/-- Wide blanks, a sign and zeros do not hide a number, and a number that is out of range by far
does not come to be one of a mode. -/
theorem parse_spec_paddedAnswer :
    (parse "\u3000+0003\n".toList).mode = some .cols2 ∧ (parse "\u3000+0003\n".toList).log = [] ∧
    (parse "18446744073709551617".toList).mode = none ∧
    ∃ message, (parse "18446744073709551617".toList).log = [⟨.warn, message⟩] := by
  have hnames : Names 3 (['\u3000'] ++ (['+'] ++ List.replicate 3 '0' ++ ['3']) ++ ['\n']) :=
    .intro 3 (by decide) (.inr rfl) (by decide)
  have hmode : (parse "\u3000+0003\n".toList).mode = some .cols2 :=
    ((parse_spec _).1 .cols2).mpr ⟨2, rfl, hnames⟩
  have hnone : (parse "18446744073709551617".toList).mode = none := by decide +kernel
  exact ⟨hmode, (parse_spec _).2.1 (by rw [hmode]; rfl), hnone, (parse_spec _).2.2 hnone⟩

end Selection

end TimingChart
