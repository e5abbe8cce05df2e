/-! # Readers

A reader takes a text from some point on and gives what it read with the text after it, or says
why it stopped. Formats with brackets and commas share the readers below. -/

namespace Dialogue.Text

abbrev Reader (ε α : Type) := List Char → Except ε (α × List Char)

def isBlank (c : Char) : Bool := c = ' ' || c = '\t' || c = '\n' || c = '\r'

def skipBlanks (s : List Char) : List Char := s.dropWhile isBlank

namespace Reader

variable {ε α β : Type}

/-- Turns what is read into something else. -/
def as (read : Reader ε α) (f : α → β) : Reader ε β := fun s =>
  match read s with
  | .ok (x, r) => .ok (f x, r)
  | .error e => .error e

/-- Elements with commas between them, up to and including `close`, after those already read,
which are given in reverse. `fault` is for a text that goes on neither way. Each comma is a
character, so a `bound` as long as the text suffices. -/
def separated (element : Reader ε α) (close : Char) (fault : List Char → ε) (seen : List α)
    (bound : List Char) : Reader ε (List α) := fun s =>
  match element s with
  | .error e => .error e
  | .ok (x, r) =>
      match skipBlanks r with
      | [] => .error (fault [])
      | c :: r =>
          if c = close then .ok ((x :: seen).reverse, r)
          else if c = ',' then
            match bound with
            | [] => .error (fault (c :: r))
            | _ :: bound => separated element close fault (x :: seen) bound r
          else .error (fault (c :: r))

/-- What stands between an opening bracket, which is already read, and `close`. -/
def enclosed (element : Reader ε α) (close : Char) (fault : List Char → ε) : Reader ε (List α) :=
  fun s =>
    match skipBlanks s with
    | [] => separated element close fault [] [] []
    | c :: r =>
        if c = close then .ok ([], r) else separated element close fault [] r (c :: r)

end Reader

end Dialogue.Text
