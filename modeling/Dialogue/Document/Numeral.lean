import Dialogue.Text.Decimal

/-! # Numerals

The written form of a number: an optional minus sign, at least one digit, then an optional
fraction and an optional exponent, either of which may lack digits. Each function splits a text
into the part it takes and the part it leaves. -/

namespace Dialogue.Document.Numeral

open Text.Decimal (splitDigits)

def splitMinus : List Char → List Char × List Char
  | '-' :: s => (['-'], s)
  | s => ([], s)

def splitSign : List Char → List Char × List Char
  | '+' :: s => (['+'], s)
  | '-' :: s => (['-'], s)
  | s => ([], s)

def splitFraction : List Char → List Char × List Char
  | '.' :: s => ('.' :: (splitDigits s).1, (splitDigits s).2)
  | s => ([], s)

def splitExponent : List Char → List Char × List Char
  | [] => ([], [])
  | c :: s =>
      if c = 'e' ∨ c = 'E' then
        let sign := splitSign s
        let digits := splitDigits sign.2
        (c :: (sign.1 ++ digits.1), digits.2)
      else ([], c :: s)

/-- The longest numeral that the text starts with, and the text after it. -/
def split? (s : List Char) : Option (List Char × List Char) :=
  let minus := splitMinus s
  let whole := splitDigits minus.2
  if whole.1 = [] then none
  else
    let fraction := splitFraction whole.2
    let exponent := splitExponent fraction.2
    some (minus.1 ++ whole.1 ++ fraction.1 ++ exponent.1, exponent.2)

end Dialogue.Document.Numeral
