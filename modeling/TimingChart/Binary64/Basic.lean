import TimingChart.Instances

/-!
# Double precision numbers

A double is not a number, an infinity, or a signed multiple of `2 ^ -1074`. The type holds each of
them in exactly one way, so that structural equality is equality of bit patterns, with a single
value for everything that is not a number. Arithmetic is exact in the rationals and rounded once.
-/

namespace TimingChart

/-! ## Rounding quotients -/

/-- The natural number nearest to `num / den`, an even one when two are equally near. -/
def roundHalfEven (num den : Nat) : Nat :=
  let quotient := num / den
  let twice := 2 * (num % den)
  if twice < den then quotient
  else if den < twice then quotient + 1
  else quotient + quotient % 2

theorem div_le_roundHalfEven (num den : Nat) : num / den ≤ roundHalfEven num den := by
  simp only [roundHalfEven]
  split
  · exact Nat.le_refl _
  · split <;> omega

/-! ## Magnitudes -/

/-- The magnitude of a finite double, `significand * 2 ^ exponent` units of `2 ^ -1074`.
The significand is below `2 ^ 53`, and not below `2 ^ 52` unless the exponent is zero, so that each
magnitude occurs once. -/
structure Magnitude where
  significand : Nat
  exponent : Nat
  significand_lt : significand < 0x20000000000000
  exponent_le : exponent ≤ 2045
  normal : exponent = 0 ∨ 0x10000000000000 ≤ significand
deriving DecidableEq

namespace Magnitude

/-- The magnitude as a multiple of `2 ^ -1074`. -/
def units (m : Magnitude) : Nat := m.significand * 2 ^ m.exponent

/-- The number of units in one: `2 ^ 1074`. -/
def unitsPerOne : Nat := 2 ^ (1074 : Nat)

def zero : Magnitude := ⟨0, 0, by decide, by decide, .inl rfl⟩

/-- The binary exponent that leaves at most 53 bits of `num / den` units before the point. -/
def gridExponent (num den : Nat) : Nat := (num / den).log2 - 52

theorem significand_normal (num den : Nat) :
    gridExponent num den = 0 ∨
      0x10000000000000 ≤ roundHalfEven num (den * 2 ^ gridExponent num den) := by
  by_cases h : gridExponent num den = 0
  · exact .inl h
  · right
    refine Nat.le_trans ?_ (div_le_roundHalfEven _ _)
    have hlog : (num / den).log2 = gridExponent num den + 52 := by
      simp only [gridExponent] at h ⊢; omega
    have hne : num / den ≠ 0 := by
      intro hz; rw [hz] at hlog; simp at hlog
    have hself := Nat.log2_self_le hne
    rw [hlog, Nat.pow_add] at hself
    rw [← Nat.div_div_eq_div_mul]
    refine (Nat.le_div_iff_mul_le (Nat.two_pow_pos _)).2 ?_
    rw [Nat.mul_comm]
    exact hself

/-- The magnitude nearest to `num / den` units, ties to the even significand. There is none from
half a step above the largest magnitude on. -/
def nearest? (num den : Nat) : Option Magnitude :=
  let exponent := gridExponent num den
  let significand := roundHalfEven num (den * 2 ^ exponent)
  if hlt : significand < 0x20000000000000 then
    if hle : exponent ≤ 2045 then
      some ⟨significand, exponent, hlt, hle, significand_normal num den⟩
    else none
  else if hle : exponent + 1 ≤ 2045 then
    some ⟨0x10000000000000, exponent + 1, by decide, hle, .inr (Nat.le_refl _)⟩
  else none

end Magnitude

/-! ## Doubles -/

/-- A double precision number. -/
inductive Binary64 where
  | nan
  | infinite (negative : Bool)
  | finite (negative : Bool) (magnitude : Magnitude)
deriving DecidableEq

namespace Binary64

instance : Inhabited Binary64 := ⟨.finite false .zero⟩

def isFinite : Binary64 → Bool
  | finite _ _ => true
  | _ => false

/-- The sign bit. Zeros have one too; what is not a number has none. -/
def negative : Binary64 → Bool
  | nan => false
  | infinite s => s
  | finite s _ => s

/-- The value of a finite double as a multiple of `2 ^ -1074`. -/
def units : Binary64 → Int
  | finite true m => -(m.units : Int)
  | finite false m => m.units
  | _ => 0

/-- The exact value of a finite double. -/
def toRat (x : Binary64) : Rat := mkRat x.units Magnitude.unitsPerOne

/-- The double nearest to a rational number, ties to even. An exact zero takes the given sign;
everything else, also what rounds to zero or beyond the largest double, keeps the sign it has. -/
def nearest (zeroNegative : Bool) (q : Rat) : Binary64 :=
  let negative := if q.num = 0 then zeroNegative else decide (q.num < 0)
  (Magnitude.nearest? (q.num.natAbs * Magnitude.unitsPerOne) q.den).elim
    (infinite negative) (finite negative)

/-- The double nearest to an integer. -/
def ofInt (n : Int) : Binary64 := nearest false (n : Rat)

instance {n : Nat} : OfNat Binary64 n := ⟨ofInt n⟩

/-! ## Bit patterns -/

/-- The 64 bits: sign, eleven exponent bits, 52 fraction bits. -/
def toBits : Binary64 → UInt64
  | nan => 0x7FF8000000000000
  | infinite s => if s then 0xFFF0000000000000 else 0x7FF0000000000000
  | finite s m =>
    .ofNat ((if s then 0x8000000000000000 else 0) + m.exponent * 0x10000000000000 + m.significand)

/-- The double with these bits; every pattern that is not a number gives the one value for that. -/
def ofBits (bits : UInt64) : Binary64 :=
  let negative := decide (0x8000000000000000 ≤ bits.toNat)
  let exponent := bits.toNat % 0x8000000000000000 / 0x10000000000000
  let fraction := bits.toNat % 0x10000000000000
  if hmax : exponent = 2047 then
    if fraction = 0 then infinite negative else nan
  else if exponent = 0 then
    finite negative ⟨fraction, 0, by omega, by decide, .inl rfl⟩
  else
    finite negative
      ⟨0x10000000000000 + fraction, exponent - 1, by omega, by omega, .inr (Nat.le_add_right _ _)⟩

/-! ## Order -/

/-- Where a double stands on the line, in units of `2 ^ -1074`; the infinities stand beyond all
finite doubles, and what is not a number stands nowhere. -/
def position : Binary64 → Option Int
  | nan => none
  | infinite true => some (-2 ^ (2098 : Nat))
  | infinite false => some (2 ^ (2098 : Nat))
  | x@(finite _ _) => some x.units

/-- Compares by position, and is false as soon as one side is not a number. -/
def compares (test : Int → Int → Bool) (x y : Binary64) : Bool :=
  match x.position, y.position with
  | some a, some b => test a b
  | _, _ => false

instance : LT Binary64 := ⟨fun x y => compares (fun a b => decide (a < b)) x y = true⟩
instance : LE Binary64 := ⟨fun x y => compares (fun a b => decide (a ≤ b)) x y = true⟩

instance (x y : Binary64) : Decidable (x < y) :=
  inferInstanceAs (Decidable (compares (fun a b => decide (a < b)) x y = true))
instance (x y : Binary64) : Decidable (x ≤ y) :=
  inferInstanceAs (Decidable (compares (fun a b => decide (a ≤ b)) x y = true))

/-- Numeric equality: zeros of either sign are equal, what is not a number equals nothing. -/
def equals (x y : Binary64) : Bool := compares (fun a b => decide (a = b)) x y

end Binary64

end TimingChart
