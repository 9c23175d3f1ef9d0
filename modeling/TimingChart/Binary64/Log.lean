import TimingChart.Binary64.Arith

/-!
# Logarithms and powers of ten

Natural logarithms are summed as series of integers with 256 bits after the binary point and then
rounded once. That is far more than a double can tell apart, so the result is the double nearest to
the logarithm.
-/

namespace TimingChart.Binary64

/-! ## Fixed point series -/

/-- One, with 256 bits after the binary point. -/
def fixedOne : Int := 2 ^ (256 : Nat)

/-- The sum of `power / odd + power * square / (odd + 2) + …`, up to the given number of terms. -/
def oddSeries (square : Int) : (terms : Nat) → (power : Int) → (odd : Int) → Int
  | 0, _, _ => 0
  | terms + 1, power, odd =>
    power / odd + oddSeries square terms (power * square / fixedOne) (odd + 2)

/-- The logarithm of `num / den` for a quotient between one half and two, as twice the inverse
hyperbolic tangent of `(num - den) / (num + den)`. -/
def fixedLog (num den : Int) : Int :=
  let ratio := (num - den) * fixedOne / (num + den)
  2 * oddSeries (ratio * ratio / fixedOne) 100 ratio 1

/-- The logarithm of `2 ^ shift * num / den`, for a quotient between one half and two. -/
def fixedLogScaled (num den shift : Int) : Int :=
  shift * fixedLog 2 1 + fixedLog num den

/-- The natural logarithm. -/
def ln : Binary64 → Binary64
  | nan => nan
  | infinite s => if s then nan else infinite false
  | finite s m =>
    if m.significand = 0 then infinite true
    else if s then nan
    else
      let width := m.significand.log2
      nearest false (mkRat
        (fixedLogScaled m.significand (2 ^ width) (width + m.exponent - 1074)) fixedOne.toNat)

/-! ## Powers of ten -/

/-- The next double above a positive one. -/
def next (x : Binary64) : Binary64 := .ofBits (x.toBits + 1)

/-- The exponents of powers that are rounded up although the double below is no farther: the first
power is in the middle of two doubles, the second one less than a thousandth of their distance below
the middle. -/
def leaningUp : List Int := [23, 210]

/-- The double nearest to `10 ^ k`, or the next one. -/
def powerOfTen (k : Int) : Binary64 :=
  let nearby := nearest false (if k < 0 then mkRat 1 (10 ^ (-k).toNat) else (10 ^ k.toNat : Nat))
  if k ∈ leaningUp then nearby.next else nearby

/-- The power of ten with a whole double as exponent. -/
def tenTo : Binary64 → Binary64
  | nan => nan
  | infinite s => if s then 0 else infinite false
  | x@(finite _ _) => powerOfTen (x.units / Magnitude.unitsPerOne)

end TimingChart.Binary64
