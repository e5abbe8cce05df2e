import Dialogue.Text.Casing.Table

/-! # Lower case

The full lower case of texts. A character has one lower case wherever it stands, but for the
capital sigma, whose lower case is another one at the end of a word. -/

namespace Dialogue.Text.Casing

def inRanges (ranges : List (Nat × Nat)) (c : Char) : Bool :=
  ranges.any fun r => r.1 ≤ c.toNat && c.toNat ≤ r.2

def Shift.shifted? (s : Shift) (c : Char) : Option Char :=
  if s.first ≤ c.toNat && c.toNat ≤ s.last && (c.toNat - s.first) % s.step = 0 then
    some (Char.ofNat (c.toNat + s.shift).toNat)
  else none

/-- The lower case of a character on its own. A dotted capital I keeps its dot. -/
def lowerChar (c : Char) : List Char :=
  if c.toNat = 0x130 then ['i', Char.ofNat 0x307]
  else [(shifts.findSome? (·.shifted? c)).getD c]

/-- Whether the first character that is not ignorable is cased. -/
def startsCased (s : List Char) : Bool :=
  match s.dropWhile (inRanges ignorableRanges) with
  | c :: _ => inRanges casedRanges c
  | [] => false

/-- The lower case of a text that goes on after the reversed `before`. -/
def lowerFrom (before : List Char) : List Char → List Char
  | [] => []
  | c :: s =>
      (if c = 'Σ' then
        if startsCased before && !startsCased s then ['ς'] else ['σ']
      else lowerChar c) ++ lowerFrom (c :: before) s

def lower (s : List Char) : List Char := lowerFrom [] s

end Dialogue.Text.Casing
