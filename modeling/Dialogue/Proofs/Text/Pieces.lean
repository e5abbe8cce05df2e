import Dialogue.Text.Pieces

/-!
# Pieces between separators

Pieces hold no separator, and with the separators put back they make up the text.
-/

namespace Dialogue.Text

variable {isSeparator : Char → Bool}

theorem pieces_cons_of_separator {c : Char} (h : isSeparator c) (s : List Char) :
    pieces isSeparator (c :: s) = [] :: pieces isSeparator s := by
  rw [pieces, if_pos h]

theorem exists_pieces (isSeparator : Char → Bool) (s : List Char) :
    ∃ first rest, pieces isSeparator s = first :: rest :=
  List.exists_cons_of_ne_nil (pieces_ne_nil isSeparator s)

/-- A text without separators in front makes the first piece longer. -/
theorem pieces_append {xs s first : List Char} {rest : List (List Char)}
    (hxs : ∀ c ∈ xs, isSeparator c = false) (hs : pieces isSeparator s = first :: rest) :
    pieces isSeparator (xs ++ s) = (xs ++ first) :: rest := by
  induction xs with
  | nil => exact hs
  | cons c xs ih =>
      obtain ⟨hc, hxs⟩ := List.forall_mem_cons.mp hxs
      rw [List.cons_append, pieces, if_neg (by simp [hc]), ih hxs]
      rfl

theorem not_separator_of_mem_pieces {s piece : List Char} (h : piece ∈ pieces isSeparator s) :
    ∀ c ∈ piece, isSeparator c = false := by
  induction s generalizing piece with
  | nil =>
      obtain rfl := List.mem_singleton.mp h
      exact fun c hc ↦ nomatch hc
  | cons d s ih =>
      by_cases hd : isSeparator d
      · rw [pieces_cons_of_separator hd] at h
        rcases List.mem_cons.mp h with rfl | h
        · exact fun c hc ↦ nomatch hc
        · exact ih h
      · obtain ⟨first, rest, hs⟩ := exists_pieces isSeparator s
        rw [pieces, if_neg hd, hs] at h
        rcases List.mem_cons.mp h with rfl | h
        · refine List.forall_mem_cons.mpr ⟨by simpa using hd, ih ?_⟩
          rw [hs]
          exact List.mem_cons_self
        · exact ih (hs ▸ List.mem_cons_of_mem _ h)

/-- A text is its first piece and the others, each with the separator before it. -/
theorem eq_of_pieces {c : Char} {s first : List Char} {rest : List (List Char)}
    (h : pieces (· = c) s = first :: rest) : s = first ++ rest.flatMap (c :: ·) := by
  induction s generalizing first rest with
  | nil =>
      cases h
      rfl
  | cons d s ih =>
      obtain ⟨first', rest', hs⟩ := exists_pieces (· = c) s
      by_cases hd : d = c
      · rw [pieces_cons_of_separator (by simpa using hd), hs] at h
        cases h
        rw [hd, List.nil_append, List.flatMap_cons, List.cons_append, ← ih hs]
      · rw [pieces, if_neg (by simpa using hd), hs] at h
        cases h
        rw [List.cons_append, ← ih hs]

end Dialogue.Text
