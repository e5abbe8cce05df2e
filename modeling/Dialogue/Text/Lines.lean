/-! # Lines of input -/

namespace Dialogue.Text

/-- The lines of a byte sequence with their line feeds, after what is already seen of the first
one in reverse. What follows the last line feed is a line if it is not empty. -/
def splitLines : (seen : List UInt8) → List UInt8 → List (List UInt8)
  | [], [] => []
  | seen, [] => [seen.reverse]
  | seen, b :: bs =>
      if b = 10 then (b :: seen).reverse :: splitLines [] bs else splitLines (b :: seen) bs

/-- The texts of lines, up to the first line that is not UTF-8. -/
def readable : List (List UInt8) → List String
  | [] => []
  | line :: lines =>
      match String.fromUTF8? ⟨line.toArray⟩ with
      | some text => text :: readable lines
      | none => []

def lines (bytes : ByteArray) : List String := readable (splitLines [] bytes.toList)

end Dialogue.Text
