import Dialogue.Proofs.Text.Enclosed

/-!
# What readers take

A reader takes some characters of a text and leaves the others. If it takes only characters of one
kind, then so does the reader of a list in brackets that is made from it.
-/

namespace Dialogue.Text

variable {P : Char → Prop}

/-- What is left of a text after some characters of one kind. -/
inductive Leaves (P : Char → Prop) : List Char → List Char → Prop
  | refl (s : List Char) : Leaves P s s
  | cons {c : Char} {s r : List Char} : P c → Leaves P s r → Leaves P (c :: s) r

theorem Leaves.trans {s r t : List Char} (h : Leaves P s r) (h' : Leaves P r t) :
    Leaves P s t := by
  induction h with
  | refl _ => exact h'
  | cons hc _ ih => exact .cons hc (ih h')

theorem Leaves.append {q : List Char} (hq : ∀ c ∈ q, P c) (r : List Char) :
    Leaves P (q ++ r) r := by
  induction q with
  | nil => exact .refl r
  | cons c q ih =>
      obtain ⟨hc, hq⟩ := List.forall_mem_cons.mp hq
      exact .cons hc (ih hq)

theorem Leaves.forall {s r : List Char} (h : Leaves P s r) (hr : ∀ c ∈ r, P c) :
    ∀ c ∈ s, P c := by
  induction h with
  | refl _ => exact hr
  | cons hc _ ih => exact List.forall_mem_cons.mpr ⟨hc, ih hr⟩

theorem leaves_takeWhile {p : Char → Bool} (h : ∀ c, p c → P c) (s : List Char) :
    Leaves P s (s.dropWhile p) := by
  have htaken : ∀ c ∈ s.takeWhile p, P c :=
    fun c hc ↦ h c (List.all_eq_true.mp List.all_takeWhile c hc)
  have hleaves := Leaves.append htaken (s.dropWhile p)
  rwa [List.takeWhile_append_dropWhile] at hleaves

theorem leaves_skipBlanks (hblank : ∀ c, isBlank c → P c) (s : List Char) :
    Leaves P s (skipBlanks s) :=
  leaves_takeWhile hblank s

/-- What stands after blanks is left once they and it are taken. -/
theorem leaves_of_skipBlanks (hblank : ∀ c, isBlank c → P c) {s t r : List Char}
    (h : skipBlanks s = t) (ht : Leaves P t r) : Leaves P s r :=
  (h ▸ leaves_skipBlanks hblank s).trans ht

namespace Reader

variable {ε α β : Type} {read : Reader ε α}

/-- All that a reader takes, of any text, are characters of one kind. -/
def Takes (P : Char → Prop) (read : Reader ε α) : Prop :=
  ∀ ⦃s r : List Char⦄ ⦃x : α⦄, read s = .ok (x, r) → Leaves P s r

theorem Takes.as (h : Takes P read) (f : α → β) : Takes P (read.as f) := by
  intro s r y hs
  obtain ⟨x, hx, -⟩ := as_eq_ok_iff.mp hs
  exact h hx

variable {close : Char} {fault : List Char → ε}

/-- After an element comes the end of the list, or a comma and the rest of the list. -/
theorem exists_of_separated {seen xs : List α} {bound s r : List Char}
    (h : separated read close fault seen bound s = .ok (xs, r)) :
    ∃ x s' c r', read s = .ok (x, s') ∧ skipBlanks s' = c :: r' ∧
      (c = close ∧ r' = r ∨
        c = ',' ∧ ∃ b bound', bound = b :: bound' ∧
          separated read close fault (x :: seen) bound' r' = .ok (xs, r)) := by
  rw [separated.eq_def] at h
  split at h
  · cases h
  · next x s' hx =>
      split at h
      · cases h
      · next c r' hr =>
          refine ⟨x, s', c, r', hx, hr, ?_⟩
          split at h
          · next hc =>
              cases h
              exact .inl ⟨hc, rfl⟩
          · split at h
            · next hc =>
                split at h
                · cases h
                · exact .inr ⟨hc, _, _, rfl, h⟩
            · cases h

theorem Takes.separated (h : Takes P read) (hblank : ∀ c, isBlank c → P c) (hclose : P close)
    (hcomma : P ',') (seen : List α) (bound : List Char) :
    Takes P (separated read close fault seen bound) := by
  -- Every comma uses up one character of the bound, also of one that is too short.
  induction bound generalizing seen with
  | nil =>
      intro s r xs hs
      obtain ⟨x, s', c, r', hx, hr, ⟨rfl, rfl⟩ | ⟨-, _, _, hnil, -⟩⟩ := exists_of_separated hs
      · exact (h hx).trans (leaves_of_skipBlanks hblank hr (.cons hclose (.refl r')))
      · cases hnil
  | cons b bound ih =>
      intro s r xs hs
      obtain ⟨x, s', c, r', hx, hr, hrest⟩ := exists_of_separated hs
      refine (h hx).trans (leaves_of_skipBlanks hblank hr ?_)
      rcases hrest with ⟨rfl, rfl⟩ | ⟨rfl, _, _, hcons, hrest⟩
      · exact .cons hclose (.refl r')
      · cases hcons
        exact .cons hcomma (ih (x :: seen) hrest)

variable (fault) in
theorem Takes.enclosed (h : Takes P read) (hblank : ∀ c, isBlank c → P c) (hclose : P close)
    (hcomma : P ',') : Takes P (enclosed read close fault) := by
  intro s r xs hs
  rw [Reader.enclosed] at hs
  split at hs
  · next hnil =>
      exact leaves_of_skipBlanks hblank hnil (h.separated hblank hclose hcomma _ _ hs)
  · next c t hcons =>
      refine leaves_of_skipBlanks hblank hcons ?_
      split at hs
      · next hc =>
          cases hs
          exact .cons (hc ▸ hclose) (.refl r)
      · exact h.separated hblank hclose hcomma _ _ hs

end Reader

end Dialogue.Text
