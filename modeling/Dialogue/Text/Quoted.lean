/-! # Quoted text

The inside of a quoted string: a backslash gives the character after it another reading, and the
first quote without one ends the string. Five letters name control characters; every other
character stands for itself, with or without a backslash. -/

namespace Dialogue.Text.Quoted

/-- The character that a backslash and the given character stand for. -/
def unescape : Char → Char
  | 'b' => '\x08'
  | 'f' => '\x0c'
  | 'n' => '\n'
  | 'r' => '\r'
  | 't' => '\t'
  | c => c

/-- The written form of one character. -/
def escape : Char → List Char
  | '"' => ['\\', '"']
  | '\\' => ['\\', '\\']
  | '\n' => ['\\', 'n']
  | '\r' => ['\\', 'r']
  | '\t' => ['\\', 't']
  | '\x08' => ['\\', 'b']
  | '\x0c' => ['\\', 'f']
  | c => [c]

/-- Splits a text after its opening quote into the characters that the string denotes, appended to
the reversed `seen`, and the text after the closing quote. A text without a closing quote has no
such split. -/
def scan (seen : List Char) : List Char → Option (List Char × List Char)
  | [] => none
  | '"' :: s => some (seen.reverse, s)
  | '\\' :: [] => none
  | '\\' :: c :: s => scan (unescape c :: seen) s
  | c :: s => scan (c :: seen) s

theorem scan_escape (seen : List Char) (c : Char) (s : List Char) :
    scan seen (escape c ++ s) = scan (c :: seen) s := by
  fun_cases escape c <;> simp_all [scan, unescape]

/-- Scanning undoes escaping, whatever follows the closing quote. -/
theorem scan_flatMap_escape (seen text s : List Char) :
    scan seen (text.flatMap escape ++ '"' :: s) = some (seen.reverse ++ text, s) := by
  induction text generalizing seen with
  | nil => simp [scan]
  | cons c text ih => simp [List.append_assoc, scan_escape, ih]

/-- A text between quotes. -/
def write (text : String) : String :=
  String.ofList ('"' :: text.toList.flatMap escape ++ ['"'])

end Dialogue.Text.Quoted
