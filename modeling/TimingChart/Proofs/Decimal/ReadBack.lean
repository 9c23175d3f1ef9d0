import Mathlib.Tactic.FieldSimp
import TimingChart.Decimal.Format
import TimingChart.Decimal.Reading
import TimingChart.Proofs.Binary64.Rounding
import TimingChart.Proofs.Decimal.Doubles

/-! # Numbers that are read back

Whatever is written for an integer or a double is read as the same integer or double. -/

namespace TimingChart

/-! ## Digits -/

theorem isDigit_of_mem_toDigits {n : Nat} {c : Char} (hc : c ∈ Nat.toDigits 10 n) : c.isDigit :=
  Nat.isDigit_of_mem_toDigits (by decide) (by decide) hc

/-! ## Integers -/

namespace Numeral

theorem digits_toDigits {base : Nat} (hbase : 1 < base) (n : Nat) :
    Digits base (Nat.toDigits base n) n := by
  induction n using Nat.strongRecOn with
  | ind n ih =>
      by_cases hlt : n < base
      · rw [Nat.toDigits_of_lt_base hlt]
        exact .first ⟨hlt, .inl rfl⟩
      · have hpos : 0 < n := by omega
        have hnext := (ih (n / base) (Nat.div_lt_self hpos hbase)).next
          (⟨Nat.mod_lt n (by omega), .inl rfl⟩ : IsDigit base (n % base).digitChar (n % base))
        rw [Nat.toDigits_of_base_le hbase (Nat.not_lt.mp hlt)]
        rwa [Nat.div_add_mod'] at hnext

/-- A decimal stands for the integer that it was written for. -/
theorem signed_integerText (n : Int) : Signed 10 (integerText n) n := by
  rw [integerText]
  split
  · next hneg =>
    have hsigned : Signed 10 (['-'] ++ Nat.toDigits 10 n.natAbs)
        (if true then -n.natAbs else n.natAbs) :=
      .intro .minus (digits_toDigits (by decide) n.natAbs)
    rwa [if_pos rfl, show -(n.natAbs : Int) = n by omega] at hsigned
  · next hpos =>
    have hsigned : Signed 10 ([] ++ Nat.toDigits 10 n.natAbs)
        (if false then -n.natAbs else n.natAbs) :=
      .intro .none (digits_toDigits (by decide) n.natAbs)
    rwa [if_neg Bool.false_ne_true, show (n.natAbs : Int) = n by omega] at hsigned

theorem readInt64_integerText (n : Int64) : readInt64 10 (integerText n.toInt) = .ok n :=
  (readInt64_eq_ok_iff (by decide)).mpr (signed_integerText n.toInt)

theorem readUInt32_digits {digits : List Char} (hne : digits ≠ [])
    (hdigits : ∀ c ∈ digits, c.isDigit) (hrange : Nat.ofDigitChars 10 digits 0 < UInt32.size) :
    readUInt32 digits = .ok (.ofNat (Nat.ofDigitChars 10 digits 0)) := by
  have hvalue := digits_ten_iff.mpr ⟨hne, hdigits, rfl⟩
  have hread : readInteger 10 0 (UInt32.size - 1 : Nat) ([] ++ digits) = _ :=
    readInteger_sign .none hne (fun _ => hvalue.startsUnsigned (by decide)) nofun
  rw [if_neg Bool.false_ne_true, hvalue.appendUp_eq (by decide), if_pos (by omega)] at hread
  rw [readUInt32, ← List.nil_append digits, hread]
  rfl

end Numeral

/-! ## Decimals -/

namespace Decimal

open Numeral (Digits)

/-- The point moves the digits by as many places as are behind it. -/
theorem mantissa_placePoint {digits : List Char} {n : Nat} (h : Digits 10 digits n)
    (places : Nat) : Mantissa (placePoint digits places) n places := by
  rw [placePoint]
  split
  next hzero =>
    rw [hzero]
    exact .whole h
  next hpositive =>
    split
    next hlt =>
      have hpoint : Mantissa (digits.take (digits.length - places) ++
          '.' :: digits.drop (digits.length - places)) n
          (digits.drop (digits.length - places)).length :=
        .point (by rwa [List.take_append_drop])
      rwa [List.length_drop, Nat.sub_sub_self hlt.le] at hpoint
    next hge =>
      have hzeros := h.zeros_append (places - digits.length + 1)
      have hlength : (List.replicate (places - digits.length) '0' ++ digits).length = places := by
        rw [List.length_append, List.length_replicate]
        omega
      have hpoint : Mantissa
          (['0'] ++ '.' :: (List.replicate (places - digits.length) '0' ++ digits)) n
          (List.replicate (places - digits.length) '0' ++ digits).length :=
        .point hzeros
      rwa [hlength] at hpoint

theorem Mantissa.read?_eq {text : List Char} {n places : Nat} (h : Mantissa text n places) :
    read? text = some ⟨n, -(places : Int)⟩ := by
  have hread := h.read?_append (rfl : readExponent? [] = some 0)
  rwa [List.append_nil, Int.zero_sub] at hread

theorem isDigit_of_mem_scaled {d : Decimal} {c : Char}
    (hc : c ∈ Nat.toDigits 10 d.digits ++ List.replicate d.exponent.toNat '0') : c.isDigit := by
  rcases List.mem_append.mp hc with hdigit | hzero
  · exact isDigit_of_mem_toDigits hdigit
  · rw [List.eq_of_mem_replicate hzero]
    rfl

theorem step_neg (places : Nat) : step (-(places : Int)) = mkRat 1 (10 ^ places) := by
  rw [step]
  split
  next hneg => rw [Int.neg_neg, Int.toNat_natCast]
  next hge =>
    obtain rfl : places = 0 := by omega
    rfl

/-- The plain form is digits, zeros included, and at most a point. -/
theorem mantissa_plain (d : Decimal) :
    Mantissa d.plain (d.digits * 10 ^ d.exponent.toNat) (-d.exponent).toNat := by
  have hdigits := Numeral.digits_ten_iff.mpr
    ⟨by simp [Nat.toDigits_ne_nil], fun c => isDigit_of_mem_scaled (d := d) (c := c), rfl⟩
  rw [Nat.ofDigitChars_append, Nat.ofDigitChars_replicate_zero, Nat.ofDigitChars_ten_toDigits,
    Nat.mul_comm] at hdigits
  exact mantissa_placePoint hdigits (-d.exponent).toNat

/-- What is in front of the point and behind it has the value of the decimal. -/
theorem toRat_plain (d : Decimal) :
    toRat ⟨d.digits * 10 ^ d.exponent.toNat, -((-d.exponent).toNat : Int)⟩ = d.toRat := by
  rw [toRat, toRat, step_neg]
  dsimp only
  by_cases hneg : d.exponent < 0
  · obtain ⟨places, hplaces⟩ : ∃ places : Nat, d.exponent = -(places : Int) :=
      ⟨d.exponent.natAbs, by omega⟩
    have hzero : (-(places : Int)).toNat = 0 := by omega
    rw [hplaces, step_neg, hzero, Int.neg_neg, Int.toNat_natCast, Nat.pow_zero, Nat.mul_one]
  · have hzero : (-d.exponent).toNat = 0 := by omega
    rw [hzero, step, if_neg hneg, Nat.pow_zero, show mkRat 1 1 = 1 from rfl, Rat.mul_one]
    push_cast
    rfl

/-- The plain form is read as a decimal of the same value. -/
theorem read?_plain (d : Decimal) : ∃ d', read? d.plain = some d' ∧ d'.toRat = d.toRat :=
  ⟨_, d.mantissa_plain.read?_eq, d.toRat_plain⟩

/-- The plain form has digits and at most a point. -/
theorem mem_plain {d : Decimal} {c : Char} (hc : c ∈ d.plain) : c.isDigit ∨ c = '.' := by
  rw [plain, placePoint] at hc
  split at hc
  · exact .inl (isDigit_of_mem_scaled hc)
  · split at hc
    · rcases List.mem_append.mp hc with hwhole | hpoint
      · exact .inl (isDigit_of_mem_scaled (List.mem_of_mem_take hwhole))
      · rcases List.mem_cons.mp hpoint with rfl | hfraction
        · exact .inr rfl
        · exact .inl (isDigit_of_mem_scaled (List.mem_of_mem_drop hfraction))
    · rcases List.mem_append.mp hc with hzero | hdigit
      · rcases List.mem_cons.mp hzero with rfl | hzero
        · exact .inl rfl
        · rcases List.mem_cons.mp hzero with rfl | hzero
          · exact .inr rfl
          · rw [List.eq_of_mem_replicate hzero]
            exact .inl rfl
      · exact .inl (isDigit_of_mem_scaled hdigit)

/-! ## Shortest decimals -/

theorem neighbour?_readsBack {m : Magnitude} {exponent : Int} {d : Decimal}
    (h : neighbour? m exponent = some d) : m.readsBack d.toRat := by
  simp only [neighbour?] at h
  split at h
  next hlower hupper =>
    split at h
    · rw [← Option.some.inj h]
      exact hlower
    · rw [← Option.some.inj h]
      exact hupper
  next hlower _ =>
    rw [← Option.some.inj h]
    exact hlower
  next _ hupper =>
    rw [← Option.some.inj h]
    exact hupper
  next => cases h

theorem firstNeighbour?_readsBack {m : Magnitude} {d : Decimal} (grids : Nat) (exponent : Int)
    (h : firstNeighbour? m grids exponent = some d) : m.readsBack d.toRat := by
  induction grids generalizing exponent with
  | zero => cases h
  | succ grids ih =>
      rw [firstNeighbour?, Option.or_eq_some_iff] at h
      rcases h with hfound | ⟨_, hlater⟩
      · exact neighbour?_readsBack hfound
      · exact ih _ hlater

theorem toRat_fives (units places : Nat) :
    toRat ⟨units * 5 ^ places, -(places : Int)⟩ = mkRat units (2 ^ places) := by
  have hten : (10 : Rat) ^ places = 5 ^ places * 2 ^ places := by
    rw [← mul_pow]
    norm_num
  rw [toRat, step_neg, Rat.mkRat_eq_div, Rat.mkRat_eq_div]
  push_cast
  rw [hten]
  field_simp

theorem toRat_exact (m : Magnitude) : (exact m).toRat = m.toRat := by
  have hfives := toRat_fives m.units 1074
  rw [Magnitude.toRat, Magnitude.unitsPerOne]
  exact hfives

/-- The shortest decimal reads back, whether it is found on a coarse grid or not. -/
theorem shortest_readsBack {m : Magnitude} (hm : m.significand ≠ 0) :
    m.readsBack (shortest m).toRat := by
  rw [shortest, if_neg hm]
  cases hfirst : firstNeighbour? m 18 (exponentAbove m.units Magnitude.unitsPerOne) with
  | none =>
      rw [Option.getD_none, toRat_exact]
      exact Magnitude.readsBack_toRat hm
  | some d =>
      rw [Option.getD_some]
      exact firstNeighbour?_readsBack _ _ hfirst

end Decimal

/-! ## Doubles -/

namespace Binary64

theorem nearest_shortest (s : Bool) (m : Magnitude) :
    nearest s (if s then -(Decimal.shortest m).toRat else (Decimal.shortest m).toRat) =
      finite s m := by
  by_cases hm : m.significand = 0
  · have hzero : (Decimal.shortest m).toRat = 0 := by
      rw [Decimal.shortest, if_pos hm]
      exact zero_mul _
    have hsame : (if s then -(0 : Rat) else 0) = 0 := by
      cases s <;> rfl
    rw [hzero, hsame, nearest_zero, Magnitude.eq_zero_of_significand hm]
  · exact nearest_of_readsBack hm (Decimal.shortest_readsBack hm) s s

theorem readUnsigned?_plain (s : Bool) (m : Magnitude) :
    readUnsigned? s (Decimal.shortest m).plain = some (finite s m) := by
  obtain ⟨d, hread, hvalue⟩ := (Decimal.shortest m).read?_plain
  rw [readUnsigned?, hread]
  dsimp only
  rw [hvalue, nearest_shortest]

/-- Each double is read back from its shortest form, zeros with their sign. -/
theorem read_shortText (x : Binary64) : read x.shortText = .ok x := by
  cases x with
  | nan => rfl
  | infinite s => cases s <;> rfl
  | finite s m =>
      have hread := readUnsigned?_plain s m
      have hmem : ∀ c ∈ (Decimal.shortest m).plain, c.isDigit ∨ c = '.' := fun c =>
        Decimal.mem_plain
      rw [shortText, signed]
      cases htext : (Decimal.shortest m).plain with
      | nil =>
          rw [htext] at hread
          cases s <;> cases hread
      | cons c rest =>
          rw [htext] at hread hmem
          cases s with
          | false =>
              have hplus : c ≠ '+' := by
                intro heq
                subst heq
                exact absurd (hmem '+' List.mem_cons_self) (by decide)
              have hminus : c ≠ '-' := by
                intro heq
                subst heq
                exact absurd (hmem '-' List.mem_cons_self) (by decide)
              rw [if_neg Bool.false_ne_true, read]
              · rw [hread]
                rfl
              · simp
              · simpa using hplus
              · simpa using hminus
          | true =>
              rw [if_pos rfl, read, hread]
              rfl

/-- Different doubles are written differently. -/
theorem shortText_injective : Function.Injective shortText := by
  intro x y h
  have hread : read x.shortText = read y.shortText := congrArg read h
  rw [read_shortText, read_shortText] at hread
  exact Except.ok.inj hread

end Binary64

end TimingChart
