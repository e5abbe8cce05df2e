/-! # Decimal numbers

Whole numbers in decimal digits: the 32-bit integer at the start of a text, and the numbers that a
whole text denotes. Only the ten ASCII digits count. -/

namespace Dialogue.Text.Decimal

/-- The digits that a text starts with, and the text after them. -/
def splitDigits (s : List Char) : List Char × List Char :=
  (s.takeWhile Char.isDigit, s.dropWhile Char.isDigit)

def digitValue (c : Char) : Nat := c.toNat - '0'.toNat

/-- The number that digits denote, modulo `2 ^ 32`. -/
def wrap (digits : List Char) : Int32 :=
  digits.foldl (fun n c => n * 10 + Int32.ofNat (digitValue c)) 0

/-- Reads a sign, if there is one, and then digits up to the first character that is none. Without
digits the number is 0, and one that needs more than 32 bits wraps around. -/
def leadingInt (text : String) : Int32 :=
  match text.toList with
  | '-' :: s => -wrap (s.takeWhile Char.isDigit)
  | '+' :: s => wrap (s.takeWhile Char.isDigit)
  | s => wrap (s.takeWhile Char.isDigit)

def ofInt (v : Int32) : String := v.toInt.repr

/-- The number below `bound` that a nonempty run of digits denotes. -/
def nat? (bound : Nat) (digits : List Char) : Option Nat :=
  if digits = [] || !digits.all Char.isDigit then none
  else
    let n := Nat.ofDigitChars 10 digits 0
    if n < bound then some n else none

/-- The least number that does not fit into 64 bits. -/
def bound64 : Nat := 0x10000000000000000

/-- The least number that does not fit into 32 bits with a sign. -/
def bound31 : Nat := 0x80000000

/-- An unsigned 64-bit number: digits, after a plus sign if any. -/
def unsigned? (text : String) : Option Nat :=
  match text.toList with
  | '+' :: s => nat? bound64 s
  | s => nat? bound64 s

/-- A signed 32-bit number: digits, after a sign if any. -/
def signed? (text : String) : Option Int32 :=
  match text.toList with
  | '-' :: s => (nat? (bound31 + 1) s).map fun n => Int32.ofInt (-n)
  | '+' :: s => (nat? bound31 s).map Int32.ofNat
  | s => (nat? bound31 s).map Int32.ofNat

end Dialogue.Text.Decimal
