/-! # Pieces of texts -/

namespace Dialogue.Text

/-- The pieces of a text between the separators in it. There is one more piece than separators, and
pieces may be empty. -/
def pieces (isSeparator : Char → Bool) : List Char → List (List Char)
  | [] => [[]]
  | c :: s =>
      if isSeparator c then [] :: pieces isSeparator s
      else
        match pieces isSeparator s with
        | [] => [[c]]
        | piece :: rest => (c :: piece) :: rest

theorem pieces_ne_nil (isSeparator : Char → Bool) (s : List Char) :
    pieces isSeparator s ≠ [] := by
  fun_cases pieces isSeparator s <;> simp

end Dialogue.Text
