import Dialogue.Document.Reader
import Dialogue.Proofs.Document.Grammar

/-!
# Reading tokens

Strings end at the first quote that has no backslash, so nothing after it matters. Numerals have no
mark at their end: a reader takes as many characters as it can and therefore looks at one more. Each
part of a numeral is split off exactly where the grammar says and the next character does not
belong to it.
-/

namespace Dialogue.Document

open Grammar (Chars Digits Fraction Exponent Number Scalar)

/-! ## Strings -/

theorem unescape_eq (c : Char) :
    Text.Quoted.unescape c = (Grammar.controls.lookup c).getD c := by
  unfold Text.Quoted.unescape
  split
  · rfl
  · rfl
  · rfl
  · rfl
  · rfl
  · next hb hf hn hr ht =>
      simp [Grammar.controls, List.lookup_cons, beq_false_of_ne hb, beq_false_of_ne hf,
        beq_false_of_ne hn, beq_false_of_ne hr, beq_false_of_ne ht]

theorem scan_plain {c : Char} (hquote : c ≠ '"') (hbackslash : c ≠ '\\') (seen s : List Char) :
    Text.Quoted.scan seen (c :: s) = Text.Quoted.scan (c :: seen) s :=
  Text.Quoted.scan.eq_5 _ _ _ hquote (fun h _ ↦ hbackslash h) fun _ _ h _ ↦ hbackslash h

theorem scan_of_chars {k t : List Char} (h : Chars k t) (seen r : List Char) :
    Text.Quoted.scan seen (k ++ '"' :: r) = some (seen.reverse ++ t, r) := by
  induction h generalizing seen with
  | nil => simp [Text.Quoted.scan]
  | plain hquote hbackslash _ ih => simp [scan_plain hquote hbackslash, ih]
  | escaped _ ih => simp [Text.Quoted.scan, ih, unescape_eq]

theorem chars_of_scan {seen s t r : List Char} (h : Text.Quoted.scan seen s = some (t, r)) :
    ∃ k t', s = k ++ '"' :: r ∧ Chars k t' ∧ t = seen.reverse ++ t' := by
  fun_induction Text.Quoted.scan seen s with
  | case1 seen => cases h
  | case2 seen s =>
      cases h
      exact ⟨[], [], rfl, .nil, by simp⟩
  | case3 seen => cases h
  | case4 seen c s ih =>
      obtain ⟨k, t', rfl, hk, rfl⟩ := ih h
      exact ⟨'\\' :: c :: k, _, rfl, .escaped hk, by simp [unescape_eq]⟩
  | case5 seen c s hquote hlast hescape ih =>
      obtain ⟨k, t', rfl, hk, rfl⟩ := ih h
      have hbackslash : c ≠ '\\' := fun hc ↦ by
        cases k with
        | nil => exact hescape _ _ hc rfl
        | cons d k => exact hescape _ _ hc rfl
      exact ⟨c :: k, c :: t', rfl, .plain hquote hbackslash hk, by simp⟩

/-- A string is read exactly if there is one, and then whatever follows it. -/
theorem string_eq_ok_iff {s : List Char} {text : String} {r : List Char} :
    Reader.string s = .ok (text, r) ↔
      ∃ k t, s = k ++ '"' :: r ∧ Chars k t ∧ text = .ofList t := by
  constructor
  · intro h
    rw [Reader.string] at h
    split at h
    · next t r' hscan =>
        cases h
        obtain ⟨k, t, rfl, hk, rfl⟩ := chars_of_scan hscan
        exact ⟨k, t, rfl, hk, by simp⟩
    · cases h
  · rintro ⟨k, t, rfl, hk, rfl⟩
    simp [Reader.string, scan_of_chars hk]

/-- A text without a closing quote is the start of one that has it: at most a character is missing
after a last backslash. -/
theorem exists_chars_of_scan_eq_none {seen s : List Char} (h : Text.Quoted.scan seen s = none) :
    ∃ u t, Chars (s ++ u) t := by
  fun_induction Text.Quoted.scan seen s with
  | case1 seen => exact ⟨[], [], .nil⟩
  | case2 seen s => cases h
  | case3 seen => exact ⟨['n'], _, .escaped .nil⟩
  | case4 seen c s ih =>
      obtain ⟨u, t, hu⟩ := ih h
      exact ⟨u, _, .escaped hu⟩
  | case5 seen c s hquote hlast hescape ih =>
      obtain ⟨u, t, hu⟩ := ih h
      have hbackslash : c ≠ '\\' := fun hc ↦ by
        cases s with
        | nil => exact hlast hc rfl
        | cons d s => exact hescape _ _ hc rfl
      exact ⟨u, _, .plain hquote hbackslash hu⟩

/-! ## Numerals -/

namespace Numeral

open Text.Decimal (splitDigits)

theorem splitDigits_eq_iff {s d r : List Char} :
    splitDigits s = (d, r) ↔ s = d ++ r ∧ Digits d ∧ ∀ c ∈ r.head?, c.isDigit = false := by
  constructor
  · intro h
    rw [splitDigits, Prod.mk.injEq] at h
    obtain ⟨rfl, rfl⟩ := h
    refine ⟨List.takeWhile_append_dropWhile.symm, ?_, ?_⟩
    · exact fun c hc ↦ List.all_eq_true.mp List.all_takeWhile c hc
    · intro c hc
      have h := List.head?_dropWhile_not Char.isDigit s
      rw [Option.mem_def] at hc
      simpa [hc] using h
  · rintro ⟨rfl, hd, hr⟩
    rw [splitDigits, List.takeWhile_append_of_pos hd, List.dropWhile_append_of_pos hd]
    cases r with
    | nil => simp
    | cons c r => simp [hr c rfl]

theorem splitMinus_eq_iff {s m r : List Char} :
    splitMinus s = (m, r) ↔ s = m ++ r ∧ (m = ['-'] ∨ m = [] ∧ r.head? ≠ some '-') := by
  constructor
  · intro h
    unfold splitMinus at h
    split at h <;> cases h
    · exact ⟨rfl, .inl rfl⟩
    · next hminus =>
        refine ⟨rfl, .inr ⟨rfl, fun hr ↦ ?_⟩⟩
        obtain ⟨t, ht⟩ := List.head?_eq_some_iff.mp hr
        exact hminus t ht
  · rintro ⟨rfl, rfl | ⟨rfl, hr⟩⟩
    · rfl
    · exact splitMinus.eq_2 r fun t ht ↦ hr (by simp [ht])

theorem splitFraction_eq_iff {s f r : List Char} :
    splitFraction s = (f, r) ↔ s = f ++ r ∧
      ((∃ d, f = '.' :: d ∧ Digits d ∧ ∀ c ∈ r.head?, c.isDigit = false) ∨
        f = [] ∧ r.head? ≠ some '.') := by
  constructor
  · intro h
    unfold splitFraction at h
    split at h <;> cases h
    · next t =>
        obtain ⟨ht, hd, hr⟩ := splitDigits_eq_iff.mp (rfl : splitDigits t = (_, _))
        exact ⟨congrArg ('.' :: ·) ht, .inl ⟨_, rfl, hd, hr⟩⟩
    · next hpoint =>
        refine ⟨rfl, .inr ⟨rfl, fun hr ↦ ?_⟩⟩
        obtain ⟨t, ht⟩ := List.head?_eq_some_iff.mp hr
        exact hpoint t ht
  · rintro ⟨rfl, ⟨d, rfl, hd, hr⟩ | ⟨rfl, hr⟩⟩
    · simp [splitFraction, splitDigits_eq_iff.mpr ⟨rfl, hd, hr⟩]
    · exact splitFraction.eq_2 r fun t ht ↦ hr (by simp [ht])

theorem splitSign_eq_iff {s m r : List Char} :
    splitSign s = (m, r) ↔ s = m ++ r ∧
      (m = ['+'] ∨ m = ['-'] ∨ m = [] ∧ r.head? ≠ some '+' ∧ r.head? ≠ some '-') := by
  constructor
  · intro h
    unfold splitSign at h
    split at h <;> cases h
    · exact ⟨rfl, .inl rfl⟩
    · exact ⟨rfl, .inr (.inl rfl)⟩
    · next hplus hminus =>
        refine ⟨rfl, .inr (.inr ⟨rfl, fun hr ↦ ?_, fun hr ↦ ?_⟩)⟩
        · obtain ⟨t, ht⟩ := List.head?_eq_some_iff.mp hr
          exact hplus t ht
        · obtain ⟨t, ht⟩ := List.head?_eq_some_iff.mp hr
          exact hminus t ht
  · rintro ⟨rfl, rfl | rfl | ⟨rfl, hplus, hminus⟩⟩
    · rfl
    · rfl
    · exact splitSign.eq_3 r (fun t ht ↦ hplus (by simp [ht])) fun t ht ↦ hminus (by simp [ht])

theorem splitExponent_eq_iff {s x r : List Char} :
    splitExponent s = (x, r) ↔ s = x ++ r ∧
      ((∃ e sign d, x = e :: (sign ++ d) ∧ e ∈ ['e', 'E'] ∧
          splitSign (sign ++ (d ++ r)) = (sign, d ++ r) ∧ splitDigits (d ++ r) = (d, r)) ∨
        x = [] ∧ ∀ c ∈ r.head?, c ∉ ['e', 'E']) := by
  constructor
  · intro h
    cases s with
    | nil =>
        cases h
        exact ⟨rfl, .inr ⟨rfl, by simp⟩⟩
    | cons e s =>
        rw [splitExponent] at h
        split at h
        · next he =>
            rcases hsign : splitSign s with ⟨sign, t⟩
            rcases hd : splitDigits t with ⟨d, r'⟩
            simp only [hsign, hd, Prod.mk.injEq] at h
            obtain ⟨rfl, rfl⟩ := h
            obtain ⟨rfl, -⟩ := splitDigits_eq_iff.mp hd
            obtain ⟨rfl, -⟩ := splitSign_eq_iff.mp hsign
            exact ⟨by simp, .inl ⟨e, sign, d, rfl, by simpa using he, hsign, hd⟩⟩
        · next he =>
            cases h
            exact ⟨rfl, .inr ⟨rfl, by simpa using he⟩⟩
  · rintro ⟨rfl, ⟨e, sign, d, rfl, he, hsign, hd⟩ | ⟨rfl, hr⟩⟩
    · rw [List.cons_append, List.append_assoc, splitExponent, if_pos (by simpa using he)]
      simp [hsign, hd]
    · cases r with
      | nil => rfl
      | cons c r => exact if_neg (by simpa using hr c rfl)

/-- The parts of what is taken, each of them taken in front of the others. -/
theorem split?_eq_some_iff {s o r : List Char} :
    split? s = some (o, r) ↔ ∃ m w f x, o = m ++ (w ++ (f ++ x)) ∧ s = o ++ r ∧ w ≠ [] ∧
      splitMinus (m ++ (w ++ (f ++ (x ++ r)))) = (m, w ++ (f ++ (x ++ r))) ∧
      splitDigits (w ++ (f ++ (x ++ r))) = (w, f ++ (x ++ r)) ∧
      splitFraction (f ++ (x ++ r)) = (f, x ++ r) ∧ splitExponent (x ++ r) = (x, r) := by
  constructor
  · intro h
    rcases hm : splitMinus s with ⟨m, s₁⟩
    rcases hwhole : splitDigits s₁ with ⟨w, s₂⟩
    rcases hf : splitFraction s₂ with ⟨f, s₃⟩
    rcases hx : splitExponent s₃ with ⟨x, s₄⟩
    simp only [split?, hm, hwhole, hf, hx] at h
    split at h
    · cases h
    · next hw =>
        cases h
        obtain ⟨rfl, -⟩ := splitExponent_eq_iff.mp hx
        obtain ⟨rfl, -⟩ := splitFraction_eq_iff.mp hf
        obtain ⟨rfl, -⟩ := splitDigits_eq_iff.mp hwhole
        obtain ⟨rfl, -⟩ := splitMinus_eq_iff.mp hm
        exact ⟨m, w, f, x, by simp, by simp, hw, hm, hwhole, hf, hx⟩
  · rintro ⟨m, w, f, x, rfl, rfl, hw, hminus, hwhole, hfraction, hexponent⟩
    simp only [List.append_assoc]
    simp [split?, hminus, hwhole, hfraction, hexponent, hw]

theorem number_of_split? {s o r : List Char} (h : split? s = some (o, r)) :
    s = o ++ r ∧ Number o := by
  obtain ⟨m, w, f, x, rfl, hs, hw, hminus, hwhole, hfraction, hexponent⟩ :=
    split?_eq_some_iff.mp h
  refine ⟨hs, .mk ?_ hw (splitDigits_eq_iff.mp hwhole).2.1 ?_ ?_⟩
  · rcases (splitMinus_eq_iff.mp hminus).2 with rfl | ⟨rfl, -⟩ <;> simp
  · rcases (splitFraction_eq_iff.mp hfraction).2 with ⟨d, rfl, hd, -⟩ | ⟨rfl, -⟩
    · exact .some hd
    · exact .none
  · rcases (splitExponent_eq_iff.mp hexponent).2 with ⟨e, sign, d, rfl, he, hsign, hd⟩ | ⟨rfl, -⟩
    · refine .some he ?_ (splitDigits_eq_iff.mp hd).2.1
      rcases (splitSign_eq_iff.mp hsign).2 with rfl | rfl | ⟨rfl, -⟩ <;> simp
    · exact .none

/-! ### One character of lookahead -/

theorem head?_append_congr (s : List Char) {r r' : List Char} (h : r'.head? = r.head?) :
    (s ++ r').head? = (s ++ r).head? := by
  rw [List.head?_append, List.head?_append, h]

theorem splitSign_lookahead {m r r' : List Char} (h : splitSign (m ++ r) = (m, r))
    (hr : r'.head? = r.head?) : splitSign (m ++ r') = (m, r') := by
  rw [splitSign_eq_iff] at h ⊢
  rw [hr]
  exact ⟨rfl, h.2⟩

theorem splitDigits_lookahead {d r r' : List Char} (h : splitDigits (d ++ r) = (d, r))
    (hr : r'.head? = r.head?) : splitDigits (d ++ r') = (d, r') := by
  rw [splitDigits_eq_iff] at h ⊢
  rw [hr]
  exact ⟨rfl, h.2⟩

/-- A numeral ends where it does because of the next character alone. -/
theorem split?_lookahead {o r r' : List Char} (h : split? (o ++ r) = some (o, r))
    (hr : r'.head? = r.head?) : split? (o ++ r') = some (o, r') := by
  obtain ⟨m, w, f, x, rfl, -, hw, hminus, hwhole, hfraction, hexponent⟩ :=
    split?_eq_some_iff.mp h
  have hx := head?_append_congr x hr
  have hf := head?_append_congr f hx
  have hm := head?_append_congr w hf
  refine split?_eq_some_iff.mpr ⟨m, w, f, x, rfl, rfl, hw, ?_, ?_, ?_, ?_⟩
  · rw [splitMinus_eq_iff] at hminus ⊢
    rw [hm]
    exact ⟨rfl, hminus.2⟩
  · exact splitDigits_lookahead hwhole hf
  · rw [splitFraction_eq_iff] at hfraction ⊢
    rw [hx]
    exact ⟨rfl, hfraction.2⟩
  · rw [splitExponent_eq_iff] at hexponent ⊢
    refine ⟨rfl, hexponent.2.imp ?_ ?_⟩
    · rintro ⟨e, sign, d, rfl, he, hsign, hd⟩
      exact ⟨e, sign, d, rfl, he, splitSign_lookahead hsign (head?_append_congr d hr),
        splitDigits_lookahead hd hr⟩
    · rintro ⟨rfl, hne⟩
      exact ⟨rfl, hr ▸ hne⟩

/-! ### Numerals in lists -/

theorem fraction_head {f : List Char} (h : Fraction f) : ∀ c ∈ f.head?, c = '.' := by
  cases h <;> simp

theorem exponent_head {x : List Char} (h : Exponent x) : ∀ c ∈ x.head?, c ∈ ['e', 'E'] := by
  cases h with
  | none => simp
  | some he => simpa using he

/-- No character of a numeral can follow an element of a list. -/
theorem head_of_delimited {r : List Char} (h : Text.Delimited r) :
    ∀ c ∈ r.head?, c.isDigit = false ∧ c ∉ ['.', 'e', 'E', '+', '-'] := by
  obtain ⟨d, hd, h⟩ := h
  intro c hc
  obtain rfl : c = d := Option.mem_unique hc hd
  rw [Text.isBlank_iff] at h
  simp only [List.mem_cons, List.not_mem_nil, or_false] at h
  rcases h with (rfl | rfl | rfl | rfl) | rfl | rfl | rfl <;> decide

theorem mem_head?_append {c : Char} {s r : List Char} (h : c ∈ (s ++ r).head?) :
    c ∈ s.head? ∨ c ∈ r.head? := by
  rw [List.head?_append, Option.mem_def, Option.or_eq_some_iff] at h
  exact h.imp id And.right

theorem splitSign_of_digits {sign d r : List Char} (hsign : sign ∈ [[], ['+'], ['-']])
    (hd : Digits d) (hr : ∀ c ∈ r.head?, c.isDigit = false ∧ c ∉ ['.', 'e', 'E', '+', '-']) :
    splitSign (sign ++ (d ++ r)) = (sign, d ++ r) := by
  have hhead : ∀ c ∈ (d ++ r).head?, c ≠ '+' ∧ c ≠ '-' := by
    intro c hc
    rcases mem_head?_append hc with hc | hc
    · have := hd c (List.mem_of_mem_head? hc)
      constructor <;> rintro rfl <;> exact absurd this (by decide)
    · have := (hr c hc).2
      simp_all
  refine splitSign_eq_iff.mpr ⟨rfl, ?_⟩
  simp only [List.mem_cons, List.not_mem_nil, or_false] at hsign
  rcases hsign with rfl | rfl | rfl
  · exact .inr (.inr ⟨rfl, fun h ↦ (hhead _ h).1 rfl, fun h ↦ (hhead _ h).2 rfl⟩)
  · exact .inl rfl
  · exact .inr (.inl rfl)

theorem split?_of_number {o r : List Char} (ho : Number o) (hr : Text.Delimited r) :
    split? (o ++ r) = some (o, r) := by
  have hhead := head_of_delimited hr
  cases ho with
  | @mk m w f x hm hw hdigits hf hx =>
      have hxhead : ∀ c ∈ (x ++ r).head?, c.isDigit = false ∧ c ≠ '.' := by
        intro c hc
        rcases mem_head?_append hc with hc | hc
        · have := exponent_head hx c hc
          simp only [List.mem_cons, List.not_mem_nil, or_false] at this
          rcases this with rfl | rfl <;> decide
        · have := hhead c hc
          simp_all
      have hfhead : ∀ c ∈ (f ++ (x ++ r)).head?, c.isDigit = false := by
        intro c hc
        rcases mem_head?_append hc with hc | hc
        · rw [fraction_head hf c hc]; rfl
        · exact (hxhead c hc).1
      refine split?_eq_some_iff.mpr ⟨m, w, f, x, rfl, rfl, hw, ?_,
        splitDigits_eq_iff.mpr ⟨rfl, hdigits, hfhead⟩, ?_, ?_⟩
      · refine splitMinus_eq_iff.mpr ⟨rfl, ?_⟩
        simp only [List.mem_cons, List.not_mem_nil, or_false] at hm
        refine hm.symm.imp_right fun hm ↦ ⟨hm, fun hminus ↦ ?_⟩
        obtain ⟨c, w', rfl⟩ := List.exists_cons_of_ne_nil hw
        obtain rfl : c = '-' := by simpa using hminus
        exact absurd (hdigits '-' (by simp)) (by decide)
      · refine splitFraction_eq_iff.mpr ⟨rfl, ?_⟩
        cases hf with
        | none => exact .inr ⟨rfl, fun h ↦ (hxhead _ h).2 rfl⟩
        | some hd => exact .inl ⟨_, rfl, hd, fun c hc ↦ (hxhead c hc).1⟩
      · refine splitExponent_eq_iff.mpr ⟨rfl, ?_⟩
        cases hx with
        | none => exact .inr ⟨rfl, fun c hc ↦ by have := (hhead c hc).2; simp_all⟩
        | @some e sign d he hsign hd =>
            exact .inl ⟨e, sign, d, rfl, he, splitSign_of_digits hsign hd hhead,
              splitDigits_eq_iff.mpr ⟨rfl, hd, fun c hc ↦ (hhead c hc).1⟩⟩

end Numeral

/-! ## Scalars -/

namespace Reader

theorem number_head {o : List Char} (h : Number o) :
    ∃ c o', o = c :: o' ∧ (c = '-' ∨ c.isDigit) := by
  cases h with
  | @mk m w f x hm hw hdigits =>
      obtain ⟨c, w', rfl⟩ := List.exists_cons_of_ne_nil hw
      simp only [List.mem_cons, List.not_mem_nil, or_false] at hm
      rcases hm with rfl | rfl
      · exact ⟨c, _, rfl, .inr (hdigits c (by simp))⟩
      · exact ⟨'-', _, rfl, .inl rfl⟩

theorem scalar_of_split? {s o r : List Char} (h : Numeral.split? s = some (o, r)) :
    scalar s = .ok (.number (.ofList o), r) := by
  obtain ⟨hs, ho⟩ := Numeral.number_of_split? h
  obtain ⟨c, o', rfl, hc⟩ := number_head ho
  rw [scalar.eq_def]
  split
  · exact absurd hc (by rw [← (List.cons.inj hs).1]; decide)
  · exact absurd hc (by rw [← (List.cons.inj hs).1]; decide)
  · exact absurd hc (by rw [← (List.cons.inj hs).1]; decide)
  · exact absurd hc (by rw [← (List.cons.inj hs).1]; decide)
  · rw [h]

theorem scalar_sound {s : List Char} {d : Document} {r : List Char}
    (h : scalar s = .ok (d, r)) : ∃ o, s = o ++ r ∧ Scalar o d := by
  rw [scalar.eq_def] at h
  split at h
  · obtain ⟨text, htext, rfl⟩ := Text.Reader.as_eq_ok_iff.mp h
    obtain ⟨k, t, rfl, hk, rfl⟩ := string_eq_ok_iff.mp htext
    exact ⟨'"' :: (k ++ ['"']), by simp, .string hk⟩
  · cases h; exact ⟨"true".toList, rfl, .true⟩
  · cases h; exact ⟨"false".toList, rfl, .false⟩
  · cases h; exact ⟨"null".toList, rfl, .null⟩
  · split at h
    · next o r' hsplit =>
        cases h
        obtain ⟨hs, ho⟩ := Numeral.number_of_split? hsplit
        exact ⟨o, hs, .number ho⟩
    · split at h <;> cases h

theorem scalar_complete {o : List Char} {d : Document} (h : Scalar o d) {r : List Char}
    (hr : Text.Delimited r) : scalar (o ++ r) = .ok (d, r) := by
  cases h with
  | @string k t hk =>
      rw [List.cons_append, List.append_assoc]
      exact Text.Reader.as_eq_ok_iff.mpr ⟨_, string_eq_ok_iff.mpr ⟨k, t, rfl, hk, rfl⟩, rfl⟩
  | number ho => exact scalar_of_split? (Numeral.split?_of_number ho hr)
  | true | false | null => rfl

theorem split?_of_scalar {s o r : List Char} (h : scalar s = .ok (.number (.ofList o), r)) :
    Numeral.split? s = some (o, r) := by
  rw [scalar.eq_def] at h
  split at h
  · obtain ⟨text, -, htext⟩ := Text.Reader.as_eq_ok_iff.mp h
    cases htext
  · cases h
  · cases h
  · cases h
  · split at h
    · next o' r' hsplit =>
        injection h with h
        obtain ⟨ho, rfl⟩ := Prod.mk.inj h
        injection ho with ho
        rw [hsplit, String.ofList_injective ho]
    · split at h <;> cases h

theorem scalar_lookahead {q r r' : List Char} {d : Document} (h : scalar (q ++ r) = .ok (d, r))
    (hr : r'.head? = r.head?) : scalar (q ++ r') = .ok (d, r') := by
  obtain ⟨o, hs, ho⟩ := scalar_sound h
  obtain rfl : q = o := List.append_cancel_right hs
  cases ho with
  | @string k t hk =>
      rw [List.cons_append, List.append_assoc]
      exact Text.Reader.as_eq_ok_iff.mpr ⟨_, string_eq_ok_iff.mpr ⟨k, t, rfl, hk, rfl⟩, rfl⟩
  | number ho => exact scalar_of_split? (Numeral.split?_lookahead (split?_of_scalar h) hr)
  | true | false | null => rfl

theorem scalar_head {o : List Char} {d : Document} (h : Scalar o d) :
    ∃ c o', o = c :: o' ∧ (c ∈ ['"', 't', 'f', 'n', '-'] ∨ c.isDigit) := by
  cases h with
  | string => exact ⟨'"', _, rfl, by simp⟩
  | number ho =>
      obtain ⟨c, o', rfl, hc⟩ := number_head ho
      exact ⟨c, o', rfl, hc.imp_left (by rintro rfl; simp)⟩
  | true => exact ⟨'t', _, rfl, by simp⟩
  | false => exact ⟨'f', _, rfl, by simp⟩
  | null => exact ⟨'n', _, rfl, by simp⟩

/-- A fault in a scalar stands at its start. -/
theorem scalar_error {s : List Char} {e : Fault} (h : scalar s = .error e) :
    e.rest = s ∧
      ((e.cause = .unterminatedString ∧ ∃ t, s = '"' :: t ∧ Text.Quoted.scan [] t = none) ∨
        (e.cause = .invalidNumber ∧ s.head? = some '-') ∨ e.cause = .unexpectedValue) := by
  rw [scalar.eq_def] at h
  split at h
  · next t =>
      rw [Text.Reader.as_eq_error_iff, string] at h
      split at h
      · cases h
      · next hscan =>
          cases h
          exact ⟨rfl, .inl ⟨rfl, t, rfl, hscan⟩⟩
  · cases h
  · cases h
  · cases h
  · split at h
    · cases h
    · split at h <;> cases h
      · exact ⟨rfl, .inr (.inl ⟨rfl, rfl⟩)⟩
      · exact ⟨rfl, .inr (.inr rfl)⟩

end Reader

end Dialogue.Document
