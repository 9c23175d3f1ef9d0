import TimingChart.Decimal.Shortest

/-!
# How numbers are written

Tables and the vertical axis show the shortest decimal that reads back, in plain form. The
horizontal axis shows whole numbers.
-/

namespace TimingChart.Binary64

/-- A minus sign wherever the sign bit is set, zeros included. -/
def signed (negative : Bool) (text : List Char) : List Char :=
  if negative then '-' :: text else text

/-- The shortest plain decimal that reads back as the same double. -/
def shortText : Binary64 → List Char
  | nan => ['N', 'a', 'N']
  | infinite s => signed s ['i', 'n', 'f']
  | finite s m => signed s (Decimal.shortest m).plain

/-- Fills up with blanks on the left. -/
def padLeft (width : Nat) (text : List Char) : List Char :=
  List.replicate (width - text.length) ' ' ++ text

/-- The nearest whole number, the even one of two that are equally near. -/
def wholeText : Binary64 → List Char
  | nan => ['N', 'a', 'N']
  | infinite s => signed s ['i', 'n', 'f']
  | finite s m => signed s (Nat.toDigits 10 (roundHalfEven m.units Magnitude.unitsPerOne))

end TimingChart.Binary64
