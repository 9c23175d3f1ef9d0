import TimingChart.Text.Invisible

/-!
# Quoted text

Messages show a text of unknown content in double quotes, on one line and without anything
invisible: five characters have escapes of their own, the rest of what would not show is written as
its code point.
-/

namespace TimingChart.Quoted

/-- The letter that stands for a character after a backslash. -/
def letter? : Char → Option Char
  | '\x00' => some '0'
  | '\t' => some 't'
  | '\r' => some 'r'
  | '\n' => some 'n'
  | '\\' => some '\\'
  | '"' => some '"'
  | _ => none

/-- One character between the quotes. -/
def encodeChar (c : Char) : List Char :=
  match letter? c with
  | some letter => ['\\', letter]
  | none =>
    if Invisible.isInvisible c then
      ['\\', 'u', '\x7b'] ++ Nat.toDigits 16 c.toNat ++ ['\x7d']
    else [c]

/-- The text in quotes. -/
def encode (text : List Char) : List Char := '"' :: text.flatMap encodeChar ++ ['"']

end TimingChart.Quoted
