import Dialogue.Text.Reader

/-!
# Lists in brackets

The written form of a list in brackets, and what `Reader.enclosed` makes of a text: it reads the
list exactly if there is one, and otherwise it stops where an element is broken or where neither a
comma nor the closing bracket follows an element.

A reader of elements is known here only through `Reads`: the phrases it takes, and that one
character after a phrase is all that it looks at.
-/

namespace Dialogue.Text

/-! ## Written form -/

/-- Blanks may stand between any two tokens. -/
def Blanks (s : List Char) : Prop := ∀ c ∈ s, c ∈ [' ', '\t', '\n', '\r']

/-- A phrase with blanks around it. -/
inductive Spaced {α : Type} (P : List Char → α → Prop) : List Char → α → Prop
  | mk {w s w' : List Char} {x : α} : Blanks w → P s x → Blanks w' → Spaced P (w ++ (s ++ w')) x

/-- One or more phrases with commas between them. -/
inductive Separated {α : Type} (P : List Char → α → Prop) : List Char → List α → Prop
  | one {s : List Char} {x : α} : P s x → Separated P s [x]
  | cons {s r : List Char} {x : α} {xs : List α} :
      P s x → Separated P r xs → Separated P (s ++ ',' :: r) (x :: xs)

/-- What follows an opening bracket, up to and including the closing one. -/
inductive Enclosed {α : Type} (close : Char) (P : List Char → α → Prop) :
    List Char → List α → Prop
  | empty {w : List Char} : Blanks w → Enclosed close P (w ++ [close]) []
  | elements {s : List Char} {xs : List α} :
      Separated (Spaced P) s xs → Enclosed close P (s ++ [close]) xs

/-! ### Elements on their own -/

section Members

variable {α : Type} {P : List Char → α → Prop} {s : List Char} {x : α} {xs : List α}

theorem Spaced.exists_infix (h : Spaced P s x) : ∃ o, P o x ∧ o <:+: s := by
  obtain ⟨-, ho, -⟩ := h
  exact ⟨_, ho, _, _, List.append_assoc ..⟩

/-- Every element is written somewhere between the brackets. -/
theorem Separated.exists_of_mem (h : Separated (Spaced P) s xs) (hx : x ∈ xs) :
    ∃ o, P o x ∧ o <:+: s := by
  induction h with
  | one hs =>
      obtain rfl := List.mem_singleton.mp hx
      exact hs.exists_infix
  | @cons s r x xs hs _ ih =>
      rcases List.mem_cons.mp hx with rfl | hx
      · obtain ⟨o, ho, hinfix⟩ := hs.exists_infix
        exact ⟨o, ho, hinfix.trans (List.prefix_append _ _).isInfix⟩
      · obtain ⟨o, ho, hinfix⟩ := ih hx
        have hrest : r <:+ s ++ ',' :: r := (List.suffix_cons _ _).trans (List.suffix_append _ _)
        exact ⟨o, ho, hinfix.trans hrest.isInfix⟩

theorem Enclosed.exists_of_mem {close : Char} (h : Enclosed close P s xs) (hx : x ∈ xs) :
    ∃ o, P o x ∧ o <:+: s := by
  cases h with
  | empty => cases hx
  | elements hs =>
      obtain ⟨o, ho, hinfix⟩ := hs.exists_of_mem hx
      exact ⟨o, ho, hinfix.trans (List.prefix_append _ _).isInfix⟩

theorem Separated.length_le (h : Separated P s xs) : xs.length ≤ s.length + 1 := by
  induction h with
  | one => exact Nat.le_add_left ..
  | cons _ _ ih =>
      rw [List.length_cons, List.length_append, List.length_cons]
      omega

/-- Every element but the last is followed by a comma, and the last by the bracket. -/
theorem Enclosed.length_le {close : Char} (h : Enclosed close P s xs) : xs.length ≤ s.length := by
  cases h with
  | empty => exact Nat.zero_le _
  | elements hs =>
      rw [List.length_append, List.length_singleton]
      exact hs.length_le

end Members

/-! ### Elements by way of others

Where each element is a function of one that `P` knows, so is the list. -/

section Exists

variable {α β : Type} {P : List Char → α → Prop} {A : α → Prop} {f : α → β}

theorem spaced_exists_iff {s : List Char} {y : β} :
    Spaced (fun s y ↦ ∃ x, P s x ∧ A x ∧ y = f x) s y ↔ ∃ x, Spaced P s x ∧ A x ∧ y = f x := by
  constructor
  · rintro ⟨hw, ⟨x, hx, ha, rfl⟩, hw'⟩
    exact ⟨x, .mk hw hx hw', ha, rfl⟩
  · rintro ⟨x, ⟨hw, hx, hw'⟩, ha, rfl⟩
    exact .mk hw ⟨x, hx, ha, rfl⟩ hw'

theorem separated_exists_iff {s : List Char} {ys : List β} :
    Separated (fun s y ↦ ∃ x, P s x ∧ A x ∧ y = f x) s ys ↔
      ∃ xs, Separated P s xs ∧ (∀ x ∈ xs, A x) ∧ ys = xs.map f := by
  constructor
  · intro h
    induction h with
    | one hy =>
        obtain ⟨x, hx, ha, rfl⟩ := hy
        exact ⟨[x], .one hx, by simpa using ha, rfl⟩
    | cons hy _ ih =>
        obtain ⟨x, hx, ha, rfl⟩ := hy
        obtain ⟨xs, hxs, has, rfl⟩ := ih
        exact ⟨x :: xs, .cons hx hxs, List.forall_mem_cons.mpr ⟨ha, has⟩, rfl⟩
  · rintro ⟨xs, h, has, rfl⟩
    induction h with
    | one hx => exact .one ⟨_, hx, has _ (by simp), rfl⟩
    | cons hx _ ih =>
        exact .cons ⟨_, hx, has _ (by simp), rfl⟩ (ih fun x hx ↦ has x (by simp [hx]))

theorem enclosed_exists_iff {close : Char} {s : List Char} {ys : List β} :
    Enclosed close (fun s y ↦ ∃ x, P s x ∧ A x ∧ y = f x) s ys ↔
      ∃ xs, Enclosed close P s xs ∧ (∀ x ∈ xs, A x) ∧ ys = xs.map f := by
  have hspaced : Spaced (fun s y ↦ ∃ x, P s x ∧ A x ∧ y = f x) =
      fun s y ↦ ∃ x, Spaced P s x ∧ A x ∧ y = f x := by
    funext s y
    exact propext spaced_exists_iff
  constructor
  · rintro (hw | h)
    · exact ⟨[], .empty hw, by simp, rfl⟩
    · rw [hspaced] at h
      obtain ⟨xs, hxs, has, rfl⟩ := separated_exists_iff.mp h
      exact ⟨xs, .elements hxs, has, rfl⟩
  · rintro ⟨xs, hw | h, has, rfl⟩
    · exact .empty hw
    · refine .elements ?_
      rw [hspaced]
      exact separated_exists_iff.mpr ⟨xs, h, has, rfl⟩

end Exists

/-! ## Blanks -/

theorem isBlank_iff {c : Char} : isBlank c = true ↔ c ∈ [' ', '\t', '\n', '\r'] := by
  simp [isBlank, or_assoc]

@[simp] theorem blanks_nil : Blanks [] := by simp [Blanks]

theorem Blanks.append {s r : List Char} (hs : Blanks s) (hr : Blanks r) : Blanks (s ++ r) :=
  fun c hc ↦ (List.mem_append.mp hc).elim (hs c) (hr c)

theorem skipBlanks_append {w : List Char} (h : Blanks w) (s : List Char) :
    skipBlanks (w ++ s) = skipBlanks s :=
  List.dropWhile_append_of_pos fun c hc ↦ isBlank_iff.mpr (h c hc)

theorem skipBlanks_cons {c : Char} (h : isBlank c = false) (s : List Char) :
    skipBlanks (c :: s) = c :: s :=
  List.dropWhile_cons_of_neg (by simp [h])

/-- What is skipped are blanks, and none is left in front. -/
theorem exists_blanks (s : List Char) :
    ∃ w, Blanks w ∧ s = w ++ skipBlanks s ∧ ∀ c ∈ (skipBlanks s).head?, isBlank c = false := by
  refine ⟨s.takeWhile isBlank, ?_, List.takeWhile_append_dropWhile.symm, ?_⟩
  · intro c hc
    exact isBlank_iff.mp (List.all_eq_true.mp List.all_takeWhile c hc)
  · intro c hc
    have h := List.head?_dropWhile_not isBlank s
    rw [skipBlanks, Option.mem_def] at hc
    simpa [hc] using h

/-- Nothing is skipped from a text that starts without a blank. -/
theorem skipBlanks_of_head? {s : List Char} (h : ∀ c ∈ s.head?, isBlank c = false) :
    skipBlanks s = s := by
  cases s with
  | nil => rfl
  | cons c s => exact skipBlanks_cons (h c rfl) s

/-- All blanks in front are skipped, and nothing else. -/
theorem skipBlanks_blanks_append {w s : List Char} (hw : Blanks w)
    (hs : ∀ c ∈ s.head?, isBlank c = false) : skipBlanks (w ++ s) = s := by
  rw [skipBlanks_append hw, skipBlanks_of_head? hs]

theorem head?_ne_of_forall_ne_cons {s : List Char} {c : Char} (h : ∀ r, s ≠ c :: r) :
    ∀ d ∈ s.head?, d ≠ c := by
  rintro d hd rfl
  obtain ⟨r, hr⟩ := List.head?_eq_some_iff.mp hd
  exact h r hr

theorem Spaced.blanks_append {α : Type} {P : List Char → α → Prop} {w s : List Char} {x : α}
    (hw : Blanks w) (h : Spaced P s x) : Spaced P (w ++ s) x := by
  cases h with
  | mk hw₁ hp hw₂ =>
      rw [← List.append_assoc]
      exact .mk (hw.append hw₁) hp hw₂

theorem Separated.blanks_append {α : Type} {P : List Char → α → Prop} {w s : List Char}
    {xs : List α} (hw : Blanks w) (h : Separated (Spaced P) s xs) :
    Separated (Spaced P) (w ++ s) xs := by
  cases h with
  | one hp => exact .one (hp.blanks_append hw)
  | cons hp hr =>
      rw [← List.append_assoc]
      exact .cons (hp.blanks_append hw) hr

/-! ## Reading elements -/

/-- A text that starts with what may follow an element of a list. -/
def Delimited (s : List Char) : Prop :=
  ∃ c ∈ s.head?, isBlank c = true ∨ c = ',' ∨ c = ']' ∨ c = '}'

theorem Delimited.blanks_append {w s : List Char} (hw : Blanks w) (hs : Delimited s) :
    Delimited (w ++ s) := by
  cases w with
  | nil => exact hs
  | cons c w => exact ⟨c, rfl, .inl (isBlank_iff.mpr (hw c (by simp)))⟩

theorem delimited_cons {c : Char} (h : c ∈ [',', ']', '}']) (s : List Char) :
    Delimited (c :: s) := by
  refine ⟨c, rfl, .inr ?_⟩
  simpa using h

/-- A reader that takes blanks and then a phrase, and looks one character further. -/
structure Reads {ε α : Type} (read : Reader ε α) (P : List Char → α → Prop) : Prop where
  sound {s : List Char} {x : α} {r : List Char} : read s = .ok (x, r) →
    ∃ w o, s = w ++ (o ++ r) ∧ Blanks w ∧ P o x
  complete {w o : List Char} {x : α} {r : List Char} : Blanks w → P o x → Delimited r →
    read (w ++ (o ++ r)) = .ok (x, r)
  lookahead {q r r' : List Char} {x : α} : read (q ++ r) = .ok (x, r) → r'.head? = r.head? →
    read (q ++ r') = .ok (x, r')
  /-- A phrase is not mistaken for blanks or for the end of the list. -/
  starts {o : List Char} {x : α} : P o x →
    ∃ c o', o = c :: o' ∧ isBlank c = false ∧ c ≠ ']' ∧ c ≠ '}'

namespace Reader

section As

variable {ε α β : Type} {read : Reader ε α} {f : α → β} {s r : List Char}

theorem as_eq_ok_iff {y : β} : read.as f s = .ok (y, r) ↔ ∃ x, read s = .ok (x, r) ∧ y = f x := by
  rw [as]
  cases read s with
  | error e => simp
  | ok z =>
      constructor
      · intro h
        cases h
        exact ⟨z.1, rfl, rfl⟩
      · rintro ⟨x, hx, rfl⟩
        cases hx
        rfl

theorem as_eq_error_iff {e : ε} : read.as f s = .error e ↔ read s = .error e := by
  rw [as]
  cases read s <;> simp

end As

variable {ε α : Type} {element : Reader ε α} {P : List Char → α → Prop} {close : Char}
  {fault : List Char → ε}

/-- How the reading of elements fails: an element is broken, or what follows an element is neither
a comma nor the closing bracket. -/
inductive Fails (element : Reader ε α) (close : Char) (fault : List Char → ε) :
    List Char → ε → Prop
  | broken {s : List Char} {e : ε} : element s = .error e → Fails element close fault s e
  | stuck {s : List Char} {x : α} {r : List Char} : element s = .ok (x, r) →
      (∀ c ∈ (skipBlanks r).head?, c ≠ close ∧ c ≠ ',') →
      Fails element close fault s (fault (skipBlanks r))
  | later {s : List Char} {x : α} {r r' : List Char} {e : ε} : element s = .ok (x, r) →
      skipBlanks r = ',' :: r' → Fails element close fault r' e → Fails element close fault s e

/-- An element and the character after it are no shorter than two characters, so that a bound as
long as the text outlives the commas in it. -/
theorem Reads.length_lt (h : Reads element P) {s r r' : List Char} {x : α} {c : Char}
    (he : element s = .ok (x, r)) (hr : skipBlanks r = c :: r') : r'.length + 2 ≤ s.length := by
  obtain ⟨w, o, rfl, -, ho⟩ := h.sound he
  obtain ⟨d, o', rfl, -⟩ := h.starts ho
  obtain ⟨w', -, hw', -⟩ := exists_blanks r
  rw [hw', hr]
  simp only [List.length_append, List.length_cons]
  omega

/-! ### One element

What `separated` does after its first element, one case per text that may follow. -/

theorem separated_broken {s : List Char} {e : ε} (he : element s = .error e) (seen : List α)
    (bound : List Char) : separated element close fault seen bound s = .error e := by
  rw [separated.eq_def, he]

theorem separated_closed {s r r' : List Char} {x : α} (he : element s = .ok (x, r))
    (hr : skipBlanks r = close :: r') (seen : List α) (bound : List Char) :
    separated element close fault seen bound s = .ok (seen.reverse ++ [x], r') := by
  rw [separated.eq_def, he]
  simp [hr]

theorem separated_stuck {s r : List Char} {x : α} (he : element s = .ok (x, r))
    (hr : ∀ c ∈ (skipBlanks r).head?, c ≠ close ∧ c ≠ ',') (seen : List α) (bound : List Char) :
    separated element close fault seen bound s = .error (fault (skipBlanks r)) := by
  rw [separated.eq_def, he]
  cases hs : skipBlanks r with
  | nil => simp [hs]
  | cons c r' =>
      obtain ⟨hclose, hcomma⟩ := hr c (by simp [hs])
      simp [hs, hclose, hcomma]

variable (fault) in
theorem separated_later (h : Reads element P) (hc : close ≠ ',') {s r r' : List Char} {x : α}
    (he : element s = .ok (x, r)) (hr : skipBlanks r = ',' :: r') {bound : List Char}
    (hb : s.length ≤ bound.length + 1) (seen : List α) :
    ∃ bound', r'.length ≤ bound'.length + 1 ∧ separated element close fault seen bound s =
      separated element close fault (x :: seen) bound' r' := by
  have hlt := Reads.length_lt h he hr
  cases bound with
  | nil => simp only [List.length_nil] at hb; omega
  | cons b bound =>
      refine ⟨bound, by simp only [List.length_cons] at hb; omega, ?_⟩
      rw [separated.eq_def element close fault seen (b :: bound) s, he]
      simp [hr, hc.symm]

/-! ### All elements -/

variable (fault) in
/-- Either the elements and the closing bracket are read, or their reading fails. -/
theorem separated_spec (h : Reads element P) (hc : close ≠ ',') (seen : List α)
    {bound s : List Char} (hb : s.length ≤ bound.length + 1) :
    (∃ q xs r, s = q ++ close :: r ∧ Separated (Spaced P) q xs ∧
      separated element close fault seen bound s = .ok (seen.reverse ++ xs, r)) ∨
    ∃ e, Fails element close fault s e ∧ separated element close fault seen bound s = .error e := by
  induction hn : s.length using Nat.strongRecOn generalizing s seen bound with
  | ind n ih =>
    subst hn
    cases he : element s with
    | error e => exact .inr ⟨e, .broken he, separated_broken he seen bound⟩
    | ok y =>
        obtain ⟨x, r⟩ := y
        obtain ⟨w, o, hs, hw, ho⟩ := h.sound he
        obtain ⟨w', hw', hr, -⟩ := exists_blanks r
        have hspaced : Spaced P (w ++ (o ++ w')) x := .mk hw ho hw'
        by_cases hstuck : ∀ c ∈ (skipBlanks r).head?, c ≠ close ∧ c ≠ ','
        · exact .inr ⟨_, .stuck he hstuck, separated_stuck he hstuck seen bound⟩
        · obtain ⟨c, r', hr'⟩ : ∃ c r', skipBlanks r = c :: r' := by
            cases hr' : skipBlanks r with
            | nil => simp [hr'] at hstuck
            | cons c r' => exact ⟨c, r', rfl⟩
          by_cases hclose : c = close
          · subst hclose
            refine .inl ⟨_, [x], r', ?_, .one hspaced, separated_closed he hr' seen bound⟩
            rw [hs, hr, hr']
            simp
          · obtain rfl : c = ',' := by simpa [hr', hclose] using hstuck
            obtain ⟨bound', hb', heq⟩ := separated_later fault h hc he hr' hb seen
            have hlt := Reads.length_lt h he hr'
            rw [heq]
            rcases ih r'.length (by omega) (x :: seen) hb' rfl with
              ⟨q, xs, t, ht, hq, hread⟩ | ⟨e, hf, hread⟩
            · refine .inl ⟨_, x :: xs, t, ?_, .cons hspaced hq, by simp [hread]⟩
              rw [hs, hr, hr', ht]
              simp
            · exact .inr ⟨e, .later he hr' hf, hread⟩

/-- Reading an element of a list leaves blanks and the mark that follows it. -/
theorem Reads.spaced (h : Reads element P) {s : List Char} {x : α} (hs : Spaced P s x) {c : Char}
    (hc : c ∈ [',', ']', '}']) (r : List Char) :
    ∃ r', element (s ++ c :: r) = .ok (x, r') ∧ skipBlanks r' = c :: r := by
  cases hs with
  | @mk w o w' _ hw ho hw' =>
      refine ⟨w' ++ c :: r, ?_, ?_⟩
      · simpa using h.complete hw ho ((delimited_cons hc r).blanks_append hw')
      · rw [skipBlanks_append hw', skipBlanks_cons]
        simp only [List.mem_cons, List.not_mem_nil, or_false] at hc
        rcases hc with rfl | rfl | rfl <;> rfl

theorem separated_complete (h : Reads element P) (hc : close ∈ [']', '}']) {q : List Char}
    {xs : List α} (hq : Separated (Spaced P) q xs) {r : List Char} (seen : List α)
    {bound : List Char} (hb : (q ++ close :: r).length ≤ bound.length + 1) :
    separated element close fault seen bound (q ++ close :: r) =
      .ok (seen.reverse ++ xs, r) := by
  induction hq generalizing seen bound with
  | one hp =>
      obtain ⟨r', he, hr'⟩ := Reads.spaced h hp (List.mem_cons_of_mem _ hc) r
      exact separated_closed he hr' seen bound
  | @cons s q x xs hp _ ih =>
      rw [List.append_assoc, List.cons_append] at hb ⊢
      obtain ⟨r', he, hr'⟩ := Reads.spaced h hp (c := ',') (by simp) (q ++ close :: r)
      have hcomma : close ≠ ',' := by rintro rfl; simp at hc
      obtain ⟨bound', hb', heq⟩ := separated_later fault h hcomma he hr' hb seen
      rw [heq, ih (x :: seen) hb']
      simp

theorem separated_of_fails (h : Reads element P) (hc : close ≠ ',') {s : List Char} {e : ε}
    (hf : Fails element close fault s e) (seen : List α) {bound : List Char}
    (hb : s.length ≤ bound.length + 1) :
    separated element close fault seen bound s = .error e := by
  induction hf generalizing seen bound with
  | broken he => exact separated_broken he seen bound
  | stuck he hr => exact separated_stuck he hr seen bound
  | later he hr _ ih =>
      obtain ⟨bound', hb', heq⟩ := separated_later fault h hc he hr hb seen
      rw [heq]
      exact ih _ hb'

/-! ### Brackets -/

theorem enclosed_empty {s r : List Char} (hs : skipBlanks s = close :: r) :
    enclosed element close fault s = .ok ([], r) := by
  simp [enclosed, hs]

variable (element fault) in
theorem enclosed_elements {s : List Char} (hs : ∀ r, skipBlanks s ≠ close :: r) :
    ∃ bound, (skipBlanks s).length ≤ bound.length + 1 ∧ enclosed element close fault s =
      separated element close fault [] bound (skipBlanks s) := by
  cases hr : skipBlanks s with
  | nil => exact ⟨[], by simp, by simp [enclosed, hr]⟩
  | cons c r =>
      have hc : c ≠ close := fun hc ↦ hs r (hc ▸ hr)
      exact ⟨r, by simp, by simp [enclosed, hr, hc]⟩

/-- The blanks in front of the first element may be left out. -/
theorem exists_blanks_of_separated (h : Reads element P) {q : List Char} {xs : List α}
    (hq : Separated (Spaced P) q xs) :
    ∃ w c q', q = w ++ c :: q' ∧ Blanks w ∧ isBlank c = false ∧ c ≠ ']' ∧ c ≠ '}' ∧
      Separated (Spaced P) (c :: q') xs := by
  cases hq with
  | one hp =>
      cases hp with
      | @mk w o w' _ hw ho hw' =>
          obtain ⟨c, o', rfl, hc⟩ := h.starts ho
          exact ⟨w, c, o' ++ w', by simp, hw, hc.1, hc.2.1, hc.2.2, .one (.mk blanks_nil ho hw')⟩
  | @cons s r _ _ hp hr =>
      cases hp with
      | @mk w o w' _ hw ho hw' =>
          obtain ⟨c, o', rfl, hc⟩ := h.starts ho
          exact ⟨w, c, o' ++ w' ++ ',' :: r, by simp, hw, hc.1, hc.2.1, hc.2.2,
            .cons (.mk blanks_nil ho hw') hr⟩

/-- A list in brackets is read exactly if there is one, and then whatever follows it. -/
theorem enclosed_eq_ok_iff (h : Reads element P) (hc : close ∈ [']', '}']) {s : List Char}
    {xs : List α} {r : List Char} :
    enclosed element close fault s = .ok (xs, r) ↔ ∃ q, s = q ++ r ∧ Enclosed close P q xs := by
  have hcomma : close ≠ ',' := by rintro rfl; simp at hc
  have hblank : isBlank close = false := by
    simp only [List.mem_cons, List.not_mem_nil, or_false] at hc
    rcases hc with rfl | rfl <;> rfl
  constructor
  · intro hs
    obtain ⟨w, hw, heq, -⟩ := exists_blanks s
    by_cases hclose : ∃ r', skipBlanks s = close :: r'
    · obtain ⟨r', hr'⟩ := hclose
      rw [enclosed_empty hr'] at hs
      cases hs
      exact ⟨w ++ [close], by rw [heq, hr']; simp, .empty hw⟩
    · obtain ⟨bound, hb, hread⟩ :=
        enclosed_elements element fault (not_exists.mp hclose)
      rw [hread] at hs
      rcases separated_spec fault h hcomma [] hb with
        ⟨q, ys, t, ht, hq, hok⟩ | ⟨e, -, herr⟩
      · rw [hok] at hs
        cases hs
        refine ⟨w ++ q ++ [close], ?_, .elements (hq.blanks_append hw)⟩
        conv => lhs; rw [heq, ht]
        simp
      · rw [herr] at hs
        cases hs
  · rintro ⟨q, rfl, hq⟩
    cases hq with
    | @empty w hw =>
        apply enclosed_empty
        rw [List.append_assoc, skipBlanks_append hw]
        exact skipBlanks_cons hblank r
    | @elements q xs hq =>
        obtain ⟨w, c, q', rfl, hw, hblank, hsq, hcu, hq'⟩ := exists_blanks_of_separated h hq
        have hskip : skipBlanks (w ++ c :: q' ++ [close] ++ r) = (c :: q') ++ close :: r := by
          simp [skipBlanks_append hw, skipBlanks_cons hblank]
        have hne : ∀ r', skipBlanks (w ++ c :: q' ++ [close] ++ r) ≠ close :: r' := by
          rw [hskip]
          rintro r' heq
          obtain rfl : c = close := by simpa using congrArg List.head? heq
          simp [hsq, hcu] at hc
        obtain ⟨bound, hb, hread⟩ := enclosed_elements element fault hne
        rw [hread, hskip] at *
        exact separated_complete h hc hq' [] hb

/-- The reading of a list in brackets fails as the reading of its elements does. -/
theorem enclosed_eq_error_iff (h : Reads element P) (hc : close ≠ ',') {s : List Char} {e : ε} :
    enclosed element close fault s = .error e ↔
      (∀ r, skipBlanks s ≠ close :: r) ∧ Fails element close fault (skipBlanks s) e := by
  constructor
  · intro hs
    by_cases hclose : ∃ r, skipBlanks s = close :: r
    · obtain ⟨r, hr⟩ := hclose
      rw [enclosed_empty hr] at hs
      cases hs
    · obtain ⟨bound, hb, hread⟩ :=
        enclosed_elements element fault (not_exists.mp hclose)
      rw [hread] at hs
      rcases separated_spec fault h hc [] hb with
        ⟨q, ys, t, -, -, hok⟩ | ⟨e', hf, herr⟩
      · rw [hok] at hs
        cases hs
      · rw [herr] at hs
        cases hs
        exact ⟨not_exists.mp hclose, hf⟩
  · rintro ⟨hclose, hf⟩
    obtain ⟨bound, hb, hread⟩ := enclosed_elements element fault hclose
    rw [hread]
    exact separated_of_fails h hc hf [] hb

/-! ### Lists without blanks

Where each element is read up to the mark after it, the list is read element by element. -/

section Marked

variable {β : Type} {write : β → List Char} {f : β → α} {x : β} {xs : List β}

variable (write) in
theorem length_le_marked {y : β} (hy : y ∈ x :: xs) (r : List Char) :
    (write y).length ≤ (write x ++ (xs.flatMap (fun y ↦ ',' :: write y) ++ r)).length := by
  rcases List.mem_cons.mp hy with rfl | hy
  · simp
  · obtain ⟨before, after, rfl⟩ := List.append_of_mem hy
    simp only [List.length_append, List.flatMap_append, List.flatMap_cons, List.length_cons]
    omega

variable (write) in
/-- There is a comma for each element after the first. -/
theorem length_le_commas (xs : List β) :
    xs.length ≤ (xs.flatMap fun y ↦ ',' :: write y).length := by
  induction xs with
  | nil => simp
  | cons y ys ih =>
      rw [List.flatMap_cons, List.length_append, List.length_cons, List.length_cons]
      omega

variable (fault) in
theorem separated_marked (hblank : isBlank close = false) (hclose : close ≠ ',')
    (h : ∀ y ∈ x :: xs, ∀ c ∈ [',', close], ∀ r, element (write y ++ c :: r) = .ok (f y, c :: r))
    (seen : List α) {bound : List Char} (hb : xs.length ≤ bound.length) (r : List Char) :
    separated element close fault seen bound
      (write x ++ (xs.flatMap (fun y ↦ ',' :: write y) ++ close :: r)) =
        .ok (seen.reverse ++ (x :: xs).map f, r) := by
  induction xs generalizing x seen bound with
  | nil =>
      have hx := h x List.mem_cons_self close (by simp) r
      exact separated_closed hx (skipBlanks_cons hblank r) seen bound
  | cons y ys ih =>
      cases bound with
      | nil => simp at hb
      | cons b bound =>
          have hcomma : isBlank ',' = false := rfl
          have hx := h x List.mem_cons_self ',' List.mem_cons_self
            (write y ++ (ys.flatMap (fun y ↦ ',' :: write y) ++ close :: r))
          have hys := ih (fun z hz ↦ h z (List.mem_cons_of_mem x hz)) (f x :: seen)
            (Nat.le_of_succ_le_succ hb)
          rw [List.flatMap_cons, List.cons_append, List.cons_append, List.append_assoc,
            separated.eq_def, hx]
          simp [skipBlanks_cons hcomma, hclose.symm, hys]

variable (fault) in
theorem enclosed_marked (hblank : isBlank close = false) (hclose : close ≠ ',')
    (h : ∀ y ∈ x :: xs, ∀ c ∈ [',', close], ∀ r, element (write y ++ c :: r) = .ok (f y, c :: r))
    (hx : ∃ c s, write x = c :: s ∧ isBlank c = false ∧ c ≠ close) (r : List Char) :
    enclosed element close fault
      (write x ++ (xs.flatMap (fun y ↦ ',' :: write y) ++ close :: r)) =
        .ok ((x :: xs).map f, r) := by
  obtain ⟨c, s, hs, hc, hne⟩ := hx
  have hb : xs.length ≤
      (s ++ (xs.flatMap (fun y ↦ ',' :: write y) ++ close :: r)).length := by
    have hcommas := length_le_commas write xs
    simp only [List.length_append]
    omega
  have hlist := separated_marked fault hblank hclose h [] hb r
  rw [hs] at hlist ⊢
  simpa [enclosed, skipBlanks_cons hc, hne] using hlist

end Marked

end Reader

end Dialogue.Text
