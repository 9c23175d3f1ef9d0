import TimingChart.Binary64.Basic

/-!
# Arithmetic on doubles

Each operation on finite doubles is the exact result in the rationals, rounded once to nearest with
ties to even. What remains are the conventions for zeros, infinities and what is not a number.
-/

namespace TimingChart.Binary64

/-! ## The four operations -/

def neg : Binary64 → Binary64
  | nan => nan
  | infinite s => infinite (!s)
  | finite s m => finite (!s) m

/-- An exact zero sum is negative only if both sides have their sign bit set. -/
def add : Binary64 → Binary64 → Binary64
  | nan, _ => nan
  | _, nan => nan
  | infinite s, infinite t => if s = t then infinite s else nan
  | infinite s, finite _ _ => infinite s
  | finite _ _, infinite t => infinite t
  | x@(finite s _), y@(finite t _) => nearest (s && t) (x.toRat + y.toRat)

def sub (x y : Binary64) : Binary64 := add x (neg y)

/-- Zero times infinity is not a number; otherwise the sign bits decide the sign. -/
def mul : Binary64 → Binary64 → Binary64
  | nan, _ => nan
  | _, nan => nan
  | infinite s, infinite t => infinite (s ^^ t)
  | infinite s, finite t m => if m.significand = 0 then nan else infinite (s ^^ t)
  | finite s m, infinite t => if m.significand = 0 then nan else infinite (s ^^ t)
  | x@(finite s _), y@(finite t _) => nearest (s ^^ t) (x.toRat * y.toRat)

/-- A quotient by zero is infinite, unless zero itself is divided. -/
def div : Binary64 → Binary64 → Binary64
  | nan, _ => nan
  | _, nan => nan
  | infinite _, infinite _ => nan
  | infinite s, finite t _ => infinite (s ^^ t)
  | finite s _, infinite t => finite (s ^^ t) .zero
  | x@(finite s m), y@(finite t n) =>
    if n.significand = 0 then
      if m.significand = 0 then nan else infinite (s ^^ t)
    else nearest (s ^^ t) (x.toRat / y.toRat)

instance : Neg Binary64 := ⟨neg⟩
instance : Add Binary64 := ⟨add⟩
instance : Sub Binary64 := ⟨sub⟩
instance : Mul Binary64 := ⟨mul⟩
instance : Div Binary64 := ⟨div⟩

def abs : Binary64 → Binary64
  | nan => nan
  | infinite _ => infinite false
  | finite _ m => finite false m

/-! ## Whole numbers -/

/-- Applies a rounding of exact values to whole numbers; a zero result keeps the sign bit. -/
def toWhole (rounding : Int → Int) : Binary64 → Binary64
  | x@(finite s _) => nearest s (rounding x.units : Rat)
  | x => x

/-- The greatest whole number not above. -/
def floor : Binary64 → Binary64 := toWhole fun units => units / (Magnitude.unitsPerOne : Int)

/-- The least whole number not below. -/
def ceil : Binary64 → Binary64 := toWhole fun units => -(-units / (Magnitude.unitsPerOne : Int))

/-- The nearest whole number, away from zero from a half on. -/
def round : Binary64 → Binary64 := toWhole fun units =>
  units.sign * ((2 * units.natAbs + Magnitude.unitsPerOne) / (2 * Magnitude.unitsPerOne) : Nat)

/-- The whole part as a 32 bit integer, the nearest one if it does not fit, and zero for what is
not a number. -/
def toInt32 : Binary64 → Int
  | nan => 0
  | infinite s => if s then Int32.minValue.toInt else Int32.maxValue.toInt
  | x@(finite _ _) =>
    max Int32.minValue.toInt (min Int32.maxValue.toInt (x.units.tdiv Magnitude.unitsPerOne))

/-- The whole part as a 64 bit count. Negative values and what is not a number count as zero. -/
def toCount : Binary64 → Nat
  | nan => 0
  | infinite s => if s then 0 else UInt64.size - 1
  | x@(finite _ _) => min (UInt64.size - 1) (x.units.tdiv Magnitude.unitsPerOne).toNat

end TimingChart.Binary64
