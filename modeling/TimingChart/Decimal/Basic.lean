import TimingChart.Instances

/-!
# Decimal numbers

A decimal is a natural number of steps of a power of ten. Its plain form has no exponent: zeros
fill the gap between the digits and the point on either side.
-/

namespace TimingChart

/-- The number `digits * 10 ^ exponent`. -/
structure Decimal where
  digits : Nat
  exponent : Int
deriving DecidableEq, Repr

namespace Decimal

/-- The width `10 ^ exponent` of one step. -/
def step (exponent : Int) : Rat :=
  if exponent < 0 then mkRat 1 (10 ^ (-exponent).toNat) else (10 ^ exponent.toNat : Nat)

/-- The exact value. -/
def toRat (d : Decimal) : Rat := (d.digits : Rat) * step d.exponent

/-- The digits with a point before the last `places` of them, and zeros where digits are missing. -/
def placePoint (digits : List Char) (places : Nat) : List Char :=
  if places = 0 then digits
  else if places < digits.length then
    digits.take (digits.length - places) ++ '.' :: digits.drop (digits.length - places)
  else '0' :: '.' :: List.replicate (places - digits.length) '0' ++ digits

/-- The plain positional form. -/
def plain (d : Decimal) : List Char :=
  placePoint (Nat.toDigits 10 d.digits ++ List.replicate d.exponent.toNat '0') (-d.exponent).toNat

end Decimal

/-- The decimal form of an integer. -/
def integerText (n : Int) : List Char :=
  if n < 0 then '-' :: Nat.toDigits 10 n.natAbs else Nat.toDigits 10 n.natAbs

end TimingChart
