/-! # Hexadecimal digits -/

namespace Dialogue.Text.Hex

/-- The value of a digit, in either case. -/
def value? (c : Char) : Option Nat :=
  if c.isDigit then some (c.toNat - '0'.toNat)
  else if 'a' ≤ c ∧ c ≤ 'f' then some (c.toNat - 'a'.toNat + 10)
  else if 'A' ≤ c ∧ c ≤ 'F' then some (c.toNat - 'A'.toNat + 10)
  else none

/-- The digit with a value below 16, in lower case. -/
def digit (n : Nat) : Char := "0123456789abcdef".toList.getD n '0'

end Dialogue.Text.Hex
