import TimingChart.Binary64.Basic
import TimingChart.Decimal.Basic

/-!
# Reading numbers

Integers are digits in base ten or sixteen with an optional sign, within given bounds. Doubles are
decimals with an optional sign, point and exponent, or the words for infinity and for what is not a
number; the double read is the one nearest to the decimal.
-/

namespace TimingChart

/-! ## Integers -/

/-- Why a text is not an integer within bounds. -/
inductive IntegerFault where
  | empty
  | invalidDigit
  | tooLarge
  | tooSmall
deriving DecidableEq, Repr

def IntegerFault.message : IntegerFault → String
  | empty => "cannot parse integer from empty string"
  | invalidDigit => "invalid digit found in string"
  | tooLarge => "number too large to fit in target type"
  | tooSmall => "number too small to fit in target type"

namespace Numeral

/-- The value of a digit, with letters of either case above nine. -/
def digitValue? (base : Nat) (c : Char) : Option Nat :=
  let value :=
    if '0' ≤ c ∧ c ≤ '9' then c.toNat - '0'.toNat
    else if 'a' ≤ c ∧ c ≤ 'z' then c.toNat - 'a'.toNat + 10
    else if 'A' ≤ c ∧ c ≤ 'Z' then c.toNat - 'A'.toNat + 10
    else base
  if value < base then some value else none

/-- Appends digits to a number that is not negative, up to a bound. -/
def appendUp (base : Nat) (high : Int) : (value : Int) → List Char → Except IntegerFault Int
  | value, [] => .ok value
  | value, c :: rest =>
    match digitValue? base c with
    | none => .error .invalidDigit
    | some digit =>
      if value * base + digit ≤ high then appendUp base high (value * base + digit) rest
      else .error .tooLarge

/-- Appends digits to a number that is not positive, down to a bound. -/
def appendDown (base : Nat) (low : Int) : (value : Int) → List Char → Except IntegerFault Int
  | value, [] => .ok value
  | value, c :: rest =>
    match digitValue? base c with
    | none => .error .invalidDigit
    | some digit =>
      if low ≤ value * base - digit then appendDown base low (value * base - digit) rest
      else .error .tooSmall

/-- Reads an integer from `low` to `high`. A minus sign is a sign only if negative numbers are in
range; a sign alone is no number. -/
def readInteger (base : Nat) (low high : Int) (text : List Char) : Except IntegerFault Int :=
  match text with
  | [] => .error .empty
  | ['+'] | ['-'] => .error .invalidDigit
  | '+' :: digits => appendUp base high 0 digits
  | '-' :: digits =>
    if low < 0 then appendDown base low 0 digits else .error .invalidDigit
  | digits => appendUp base high 0 digits

/-- Reads a signed 64 bit integer. -/
def readInt64 (base : Nat) (text : List Char) : Except IntegerFault Int64 :=
  (readInteger base Int64.minValue.toInt Int64.maxValue.toInt text).map Int64.ofInt

/-- Reads an unsigned 32 bit integer in base ten. -/
def readUInt32 (text : List Char) : Except IntegerFault UInt32 :=
  (readInteger 10 0 (UInt32.size - 1 : Nat) text).map fun n => UInt32.ofNat n.toNat

end Numeral

/-! ## Doubles -/

/-- Why a text is not a double. -/
inductive FloatFault where
  | empty
  | invalid
deriving DecidableEq, Repr

def FloatFault.message : FloatFault → String
  | empty => "cannot parse float from empty string"
  | invalid => "invalid float literal"

namespace Decimal

/-- Exponents stop growing once they have reached this bound: no double has so many digits. -/
def exponentBound : Nat := 65536

/-- The value of the digits of an exponent. -/
def readExponentDigits (digits : List Char) : Nat :=
  digits.foldl
    (fun value c => if value < exponentBound then 10 * value + (c.toNat - '0'.toNat) else value) 0

/-- Reads what may follow the digits of a number: nothing, or an exponent. -/
def readExponent? (text : List Char) : Option Int :=
  match text with
  | [] => some 0
  | mark :: rest =>
    if mark = 'e' ∨ mark = 'E' then
      let (negative, digits) := match rest with
        | '+' :: digits => (false, digits)
        | '-' :: digits => (true, digits)
        | digits => (false, digits)
      if digits ≠ [] ∧ digits.all Char.isDigit then
        let value : Int := readExponentDigits digits
        some (if negative then -value else value)
      else none
    else none

/-- Splits off the digits after a point, if a point comes first. -/
def splitFraction (text : List Char) : List Char × List Char :=
  match text with
  | '.' :: rest => (rest.takeWhile Char.isDigit, rest.dropWhile Char.isDigit)
  | rest => ([], rest)

/-- Reads digits with an optional point among them and an optional exponent after them. -/
def read? (text : List Char) : Option Decimal :=
  let whole := text.takeWhile Char.isDigit
  let (fraction, rest) := splitFraction (text.dropWhile Char.isDigit)
  if whole ++ fraction = [] then none
  else
    (readExponent? rest).map fun exponent =>
      ⟨Nat.ofDigitChars 10 (whole ++ fraction) 0, exponent - fraction.length⟩

end Decimal

namespace Binary64

/-- Reads the words that stand for no finite number, in any letter case. -/
def readWord? (negative : Bool) (text : List Char) : Option Binary64 :=
  match text.map Char.toLower with
  | ['i', 'n', 'f'] | ['i', 'n', 'f', 'i', 'n', 'i', 't', 'y'] => some (infinite negative)
  | ['n', 'a', 'n'] => some nan
  | _ => none

/-- Reads a number without sign, as a decimal or as a word. -/
def readUnsigned? (negative : Bool) (text : List Char) : Option Binary64 :=
  match Decimal.read? text with
  | some d => some (nearest negative (if negative then -d.toRat else d.toRat))
  | none => readWord? negative text

/-- Reads a double: the one nearest to the number that the text denotes, with its sign. -/
def read (text : List Char) : Except FloatFault Binary64 :=
  match text with
  | [] => .error .empty
  | '+' :: rest => (readUnsigned? false rest).elim (.error .invalid) .ok
  | '-' :: rest => (readUnsigned? true rest).elim (.error .invalid) .ok
  | rest => (readUnsigned? false rest).elim (.error .invalid) .ok

end Binary64

end TimingChart
