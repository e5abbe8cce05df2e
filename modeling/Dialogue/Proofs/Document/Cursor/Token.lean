import Dialogue.Proofs.Document.Cursor.Run

/-!
# Tokens at the cursor

Each part of a token is read as from a list of characters. In a string the cursor goes on by whole
characters, and elsewhere by bytes of ASCII, so it never stops inside a character.

A string is read back from what it is written as, whatever stands before and after it. So no written
string is the start of another one.
-/

namespace Dialogue.Document.Cursor

open Document.Numeral (splitMinus splitSign splitFraction splitExponent)
open Text.Decimal (splitDigits)

variable {text : String} {r : List Char} {s : State}

/-! ## Runs of characters -/

theorem skipWhile_eq (text : String) (p : UInt8 → Bool) :
    skipWhile text p = (do
      if (← peek text).any p then
        move 1
        skipWhile text p
      else return ()) := by
  conv_lhs => rw [skipWhile, loop_eq, bind_assoc]
  refine bind_congr fun b ↦ ?_
  split
  · simp only [bind_assoc, pure_bind]
    rfl
  · exact pure_bind _ _

section Tells

variable {p : UInt8 → Bool} {q : Char → Bool}

theorem gives_skipWhile (h : Tells p q) (hs : s.Before text r) :
    Gives text Eq (skipWhile text p) s (.ok ((), r.dropWhile q)) := by
  induction r generalizing s with
  | nil =>
      rw [skipWhile_eq, gives_bind_peek hs]
      exact gives_pure hs rfl
  | cons c r ih =>
      rw [skipWhile_eq, gives_bind_peek hs, h.any_firstByte, List.head?_cons, Option.any_some,
        List.dropWhile_cons]
      split
      · next hc => exact gives_bind_move.mpr (ih (hs.move_one (h.char_lt c hc)))
      · exact gives_pure hs rfl

theorem gives_skipIf (h : Tells p q) (hs : s.Before text r) :
    Gives text Eq (skipIf text p) s (.ok ((), if r.head?.any q then r.tail else r)) := by
  rw [skipIf, gives_bind_peek hs, h.any_firstByte]
  split
  · next hany =>
      obtain ⟨c, hc, hq⟩ := (Option.any_eq_true _ _).mp hany
      obtain ⟨r, rfl⟩ := List.head?_eq_some_iff.mp hc
      exact ⟨.ok (), s.move 1, run_move 1 s, .ok rfl (hs.move_one (h.char_lt c hq))⟩
  · exact gives_pure hs rfl

end Tells

/-! ## Strings -/

theorem gives_nextChar (hs : s.Before text r) :
    Gives text Eq (nextChar text) s (.ok (r.head?, r.tail)) := by
  obtain ⟨p, hp, hpos⟩ := hs.split
  have hsize : text.utf8ByteSize = utf8Size (p ++ r) := by rw [utf8ByteSize_eq, hp]
  rw [nextChar, gives_bind_position, hpos, hsize]
  refine gives_bind_take (r := []) (by rw [hp, List.append_nil]) hs fun s' hs' _ ↦ ?_
  rw [String.toList_ofList]
  cases r with
  | nil => exact gives_pure hs' rfl
  | cons c r => exact gives_bind_move.mpr (gives_pure hs'.move_char rfl)

theorem gives_bind_nextChar {β α : Type} {R : β → α → Prop} {f : Option Char → Run β}
    {answer : Except Reader.Fault (α × List Char)} (hs : s.Before text r)
    (hf : ∀ s', s'.Before text r.tail → Gives text R (f r.head?) s' answer) :
    Gives text R (nextChar text >>= f) s answer := by
  refine (gives_nextChar hs).bind fun c s' hc hs' ↦ ?_
  subst hc
  exact hf s' hs'

theorem characters_eq (text : String) (start : Nat) (seen : String) :
    characters text start seen = (do
      match ← nextChar text with
      | none => fail .unterminatedString start
      | some c =>
          if c = '"' then return seen
          else if c = '\\' then
            match ← nextChar text with
            | none => fail .unterminatedString start
            | some c => characters text start (seen.push (Text.Quoted.unescape c))
          else characters text start (seen.push c)) := by
  conv_lhs => rw [characters, loop_eq, bind_assoc]
  refine bind_congr fun c ↦ ?_
  cases c with
  | none => exact fail_bind _ _ _
  | some c =>
      dsimp only
      split
      · exact pure_bind _ _
      split
      · rw [bind_assoc]
        refine bind_congr fun c ↦ ?_
        cases c with
        | none => exact fail_bind _ _ _
        | some c => exact pure_bind _ _
      · exact pure_bind _ _

theorem push_ofList_reverse (seen : List Char) (c : Char) :
    (String.ofList seen.reverse).push c = .ofList (c :: seen).reverse := by
  rw [← String.toList_inj]
  simp

/-- The characters of a string are those that scanning finds. -/
theorem gives_characters {start : Nat} {opening : List Char}
    (hstart : start + utf8Size opening = utf8Size text.toList) (seen : List Char)
    (hs : s.Before text r) :
    Gives text Eq (characters text start (.ofList seen.reverse)) s
      (match Text.Quoted.scan seen r with
      | some (t, r') => .ok (.ofList t, r')
      | none => .error ⟨.unterminatedString, opening⟩) := by
  fun_induction Text.Quoted.scan seen r generalizing s with
  | case1 seen =>
      rw [characters_eq]
      exact gives_bind_nextChar hs fun s' hs' ↦ gives_fail hs'.toSound hstart
  | case2 seen r =>
      rw [characters_eq]
      exact gives_bind_nextChar hs fun s' hs' ↦ gives_pure hs' rfl
  | case3 seen =>
      rw [characters_eq]
      refine gives_bind_nextChar hs fun s' hs' ↦ ?_
      exact gives_bind_nextChar hs' fun s'' hs'' ↦ gives_fail hs''.toSound hstart
  | case4 seen c r ih =>
      rw [characters_eq]
      refine gives_bind_nextChar hs fun s' hs' ↦ gives_bind_nextChar hs' fun s'' hs'' ↦ ?_
      have hgives := ih hs''
      rw [← push_ofList_reverse] at hgives
      exact hgives
  | case5 seen c r hquote hlast hescape ih =>
      have hbackslash : c ≠ '\\' := fun hc ↦ by
        cases r with
        | nil => exact hlast hc rfl
        | cons d r => exact hescape _ _ hc rfl
      rw [characters_eq]
      refine gives_bind_nextChar hs fun s' hs' ↦ ?_
      have hgives := ih hs'
      rw [← push_ofList_reverse] at hgives
      rw [List.head?_cons]
      dsimp only
      rw [if_neg hquote, if_neg hbackslash]
      exact hgives

/-- A string, from its opening quote on. -/
theorem gives_string (hs : s.Before text ('"' :: r)) :
    Gives text Eq (string text) s (Reader.string r) := by
  have hread : Gives text Eq (do let start ← position; move 1; characters text start "") s
      (Reader.string r) := by
    rw [gives_bind_position, gives_bind_move]
    exact gives_characters hs.pos_add [] (hs.move_one (by decide))
  refine hread.advancing hs fun x r' hok ↦ ?_
  obtain ⟨k, t, rfl, -⟩ := string_eq_ok_iff.mp hok
  exact ⟨'"' :: (k ++ ['"']), by simp, List.cons_ne_nil _ _⟩

/-! ### Strings as they are written -/

theorem toList_write_append (text r : String) : (Text.Quoted.write text ++ r).toList =
    '"' :: (text.toList.flatMap Text.Quoted.escape ++ '"' :: r.toList) := by
  simp [Text.Quoted.write]

theorem string_of_write (text r : String) :
    Reader.string (text.toList.flatMap Text.Quoted.escape ++ '"' :: r.toList) =
      .ok (text, r.toList) := by
  simp [Reader.string, Text.Quoted.scan_flatMap_escape]

/-- Where one written string starts another one, the two are the same. -/
theorem write_prefix_write_iff {text text' : String} :
    (Text.Quoted.write text).toList <+: (Text.Quoted.write text').toList ↔ text = text' := by
  constructor
  · rintro ⟨u, hu⟩
    have hwritten := toList_write_append text (.ofList u)
    have hwritten' := toList_write_append text' ""
    rw [String.toList_append, String.toList_ofList, hu] at hwritten
    rw [String.append_empty, hwritten] at hwritten'
    have hread := string_of_write text (.ofList u)
    rw [String.toList_ofList, (List.cons.inj hwritten').2, string_of_write] at hread
    exact (Prod.mk.inj (Except.ok.inj hread)).1.symm
  · rintro rfl
    exact List.prefix_rfl

/-- With the cursor before a written string, in whatever text, that string is read and the cursor is
left behind it. So a written string tells what it was written from, and none is the start of another
one. -/
theorem string_inverts_write :
    (∀ before text after : String,
      (∃ final, (string (before ++ Text.Quoted.write text ++ after)).run.run
          (.start before.utf8ByteSize) = .some (.ok text, final) ∧
        final.pos = (before ++ Text.Quoted.write text).utf8ByteSize) ∧
      ∃ rest, (Text.Quoted.write text ++ after).toList = '"' :: rest ∧
        Reader.string rest = .ok (text, after.toList)) ∧
    Function.Injective Text.Quoted.write ∧
    ∀ text text' : String,
      (Text.Quoted.write text).toList <+: (Text.Quoted.write text').toList ↔ text = text' := by
  refine ⟨fun before text after ↦
      ⟨?_, _, toList_write_append text after, string_of_write text after⟩,
    fun text text' h ↦ ?_, fun text text' ↦ write_prefix_write_iff⟩
  · have hsplit : (before ++ Text.Quoted.write text ++ after).toList =
        before.toList ++ (Text.Quoted.write text ++ after).toList := by
      rw [String.append_assoc, String.toList_append]
    rw [toList_write_append] at hsplit
    have hgives := gives_string (State.before_start hsplit)
    rw [string_of_write, ← utf8ByteSize_eq] at hgives
    obtain ⟨final, hrun, hfinal⟩ := hgives.exists_run
    refine ⟨final, hrun, ?_⟩
    rw [hfinal.pos_eq String.toList_append, utf8ByteSize_eq]
  · exact write_prefix_write_iff.mp (h ▸ List.prefix_rfl)

/-! ## Numerals -/

theorem splitMinus_snd (r : List Char) :
    (splitMinus r).2 = if r.head?.any (· = '-') then r.tail else r := by
  cases r with
  | nil => rfl
  | cons c r =>
      by_cases hminus : c = '-'
      · rw [hminus]
        rfl
      · have hstay : splitMinus (c :: r) = ([], c :: r) :=
          Numeral.splitMinus_eq_iff.mpr ⟨rfl, .inr ⟨rfl, by simpa using hminus⟩⟩
        rw [hstay, if_neg (by simpa using hminus)]

theorem splitSign_snd (r : List Char) :
    (splitSign r).2 = if r.head?.any (fun c ↦ c = '+' || c = '-') then r.tail else r := by
  cases r with
  | nil => rfl
  | cons c r =>
      by_cases hplus : c = '+'
      · rw [hplus]
        rfl
      by_cases hminus : c = '-'
      · rw [hminus]
        rfl
      · have hstay : splitSign (c :: r) = ([], c :: r) :=
          Numeral.splitSign_eq_iff.mpr
            ⟨rfl, .inr (.inr ⟨rfl, by simpa using hplus, by simpa using hminus⟩)⟩
        rw [hstay, if_neg (by simp [hplus, hminus])]

theorem gives_skipDigits (hs : s.Before text r) :
    Gives text Eq (skipWhile text isDigitByte) s (.ok ((), (splitDigits r).2)) :=
  gives_skipWhile tells_isDigit hs

theorem gives_fraction (hs : s.Before text r) :
    Gives text Eq (fraction text) s (.ok ((), (splitFraction r).2)) := by
  rw [fraction, gives_bind_peek hs]
  refine gives_ite_byte (by decide) (fun r' hr ↦ ?_) fun hr ↦ ?_
  · subst hr
    rw [gives_bind_move]
    exact gives_skipDigits (hs.move_one (by decide))
  · have hhead : r.head? ≠ some '.' := fun h ↦ (List.head?_eq_some_iff.mp h).elim hr
    have hstay : splitFraction r = ([], r) :=
      Numeral.splitFraction_eq_iff.mpr ⟨rfl, .inr ⟨rfl, hhead⟩⟩
    rw [hstay]
    exact gives_pure hs rfl

theorem tells_sign : Tells (fun b ↦ b = byte '+' || b = byte '-') (fun c ↦ c = '+' || c = '-') :=
  (tells_eq (by decide)).or (tells_eq (by decide))

theorem tells_exponent :
    Tells (fun b ↦ b = byte 'e' || b = byte 'E') (fun c ↦ c = 'e' || c = 'E') :=
  (tells_eq (by decide)).or (tells_eq (by decide))

theorem gives_exponent (hs : s.Before text r) :
    Gives text Eq (exponent text) s (.ok ((), (splitExponent r).2)) := by
  rw [exponent, gives_bind_peek hs, tells_exponent.any_firstByte]
  cases r with
  | nil => exact gives_pure hs rfl
  | cons c r =>
      rw [splitExponent, List.head?_cons, Option.any_some]
      by_cases hc : c = 'e' ∨ c = 'E'
      · have hascii : c.toNat < 128 := by rcases hc with rfl | rfl <;> decide
        rw [if_pos (by simpa using hc), if_pos hc, gives_bind_move]
        refine (gives_skipIf tells_sign (hs.move_one hascii)).bind fun _ s' _ hs' ↦ ?_
        rw [← splitSign_snd] at hs'
        exact gives_skipDigits hs'
      · rw [if_neg (by simpa using hc), if_neg hc]
        exact gives_pure hs rfl

/-- What a number is read as, where there is one or a fault. -/
def numberAnswer (r : List Char) : Except Reader.Fault (Document × List Char) :=
  match Numeral.split? r with
  | some (o, r') => .ok (.number (.ofList o), r')
  | none => .error ⟨.invalidNumber, r⟩

theorem any_isDigit_iff {r : List Char} : r.head?.any Char.isDigit ↔ (splitDigits r).1 ≠ [] := by
  cases r with
  | nil => simp [splitDigits]
  | cons c r => by_cases hc : c.isDigit <;> simp [splitDigits, hc]

theorem gives_number (hs : s.Before text r) :
    Gives text Eq (number text) s (numberAnswer r) := by
  refine Gives.advancing ?_ hs fun d r' hok ↦ ?_
  · rw [gives_bind_position]
    refine (gives_skipIf (tells_eq (by decide)) hs).bind fun _ s₁ _ hs₁ ↦ ?_
    rw [← splitMinus_snd] at hs₁
    rw [gives_bind_peek hs₁, tells_isDigit.any_firstByte]
    by_cases hdigits : (splitDigits (splitMinus r).2).1 = []
    · have hsplit : Numeral.split? r = none := if_pos hdigits
      rw [if_neg (mt any_isDigit_iff.mp (not_not_intro hdigits)), numberAnswer, hsplit]
      exact gives_fail hs₁.toSound hs.pos_add
    · obtain ⟨o, r', hsplit⟩ : ∃ o r', Numeral.split? r = some (o, r') := ⟨_, _, if_neg hdigits⟩
      obtain ⟨rfl, -⟩ := Numeral.number_of_split? hsplit
      obtain ⟨p, hp, hpos⟩ := hs.split
      have hrest : (splitExponent (splitFraction (splitDigits (splitMinus (o ++ r')).2).2).2).2 =
          r' := (Prod.mk.inj (Option.some.inj ((if_neg hdigits).symm.trans hsplit))).2
      rw [if_pos (any_isDigit_iff.mpr hdigits), numberAnswer, hsplit]
      refine (gives_skipDigits hs₁).bind fun _ s₂ _ hs₂ ↦ ?_
      refine (gives_fraction hs₂).bind fun _ s₃ _ hs₃ ↦ ?_
      refine (gives_exponent hs₃).bind fun _ s₄ _ hs₄ ↦ ?_
      rw [hrest] at hs₄
      have hpos₄ : s₄.pos = utf8Size (p ++ o) := hs₄.pos_eq (by rw [hp, List.append_assoc])
      rw [gives_bind_position, hpos, hpos₄]
      exact gives_bind_take hp hs₄ fun s₅ hs₅ _ ↦ gives_pure hs₅ rfl
  · rw [numberAnswer] at hok
    split at hok
    · next o r'' hsplit =>
        cases hok
        obtain ⟨hr, ho⟩ := Numeral.number_of_split? hsplit
        obtain ⟨c, o', rfl, -⟩ := Reader.number_head ho
        exact ⟨_, hr, List.cons_ne_nil _ _⟩
    · cases hok

/-! ## Words -/

theorem ascii_of_mem_words {w : String × Nat × Document} (hw : w ∈ words) :
    ∀ c ∈ w.1.toList, c.toNat < 128 := by
  simp only [words, List.mem_cons, List.not_mem_nil, or_false] at hw
  rcases hw with rfl | rfl | rfl <;> simp

theorem size_of_mem_words {w : String × Nat × Document} (hw : w ∈ words) :
    w.2.1 = utf8Size w.1.toList := by
  simp only [words, List.mem_cons, List.not_mem_nil, or_false] at hw
  rcases hw with rfl | rfl | rfl <;> rfl

theorem scalar_of_mem_words {w : String × Nat × Document} (hw : w ∈ words) (r : List Char) :
    Reader.scalar (w.1.toList ++ r) = .ok (w.2.2, r) := by
  simp only [words, List.mem_cons, List.not_mem_nil, or_false] at hw
  rcases hw with rfl | rfl | rfl <;> rfl

/-- The words are found by their characters as by their bytes. -/
theorem find?_words (r : List Char) :
    words.find? (fun w ↦ w.1.toByteArray.toList.isPrefixOf (r.flatMap String.utf8EncodeChar)) =
      words.find? fun w ↦ w.1.toList.isPrefixOf r := by
  rw [← List.head?_filter, ← List.head?_filter]
  refine congrArg List.head? (List.filter_congr fun w hw ↦ ?_)
  rw [Bool.eq_iff_iff, List.isPrefixOf_iff_prefix, List.isPrefixOf_iff_prefix, toList_toByteArray]
  exact utf8Encode_prefix_iff (ascii_of_mem_words hw) r

/-- A scalar that is neither a string nor a word is a number. -/
theorem scalar_eq_of_no_word (hquote : r.head? ≠ some '"')
    (hword : ∀ w ∈ words, ¬w.1.toList <+: r) :
    Reader.scalar r = match Numeral.split? r with
      | some (o, r') => .ok (.number (.ofList o), r')
      | none =>
          .error ⟨if r.head? = some '-' then .invalidNumber else .unexpectedValue, r⟩ := by
  rw [Reader.scalar.eq_def]
  split
  · exact absurd rfl hquote
  · next t => exact absurd ⟨t, rfl⟩ (hword ("true", 4, .bool true) (by simp [words]))
  · next t => exact absurd ⟨t, rfl⟩ (hword ("false", 5, .bool false) (by simp [words]))
  · next t => exact absurd ⟨t, rfl⟩ (hword ("null", 4, .null) (by simp [words]))
  · cases Numeral.split? r with
    | some a => rfl
    | none =>
        dsimp only
        split
        · rfl
        · next hminus =>
            rw [if_neg fun hhead ↦ ?_]
            obtain ⟨t, ht⟩ := List.head?_eq_some_iff.mp hhead
            exact hminus t ht

theorem not_word_of_number (hnumber : r.head?.any (fun c ↦ c = '-' || c.isDigit)) :
    r.head? ≠ some '"' ∧ ∀ w ∈ words, ¬w.1.toList <+: r := by
  obtain ⟨c, hc, hor⟩ := (Option.any_eq_true _ _).mp hnumber
  obtain ⟨r, rfl⟩ := List.head?_eq_some_iff.mp hc
  refine ⟨fun hquote ↦ ?_, fun w hw hprefix ↦ ?_⟩
  · obtain rfl : c = '"' := Option.some.inj hquote
    exact absurd hor (by decide)
  · simp only [words, List.mem_cons, List.not_mem_nil, or_false] at hw
    rcases hw with rfl | rfl | rfl
    all_goals
      obtain rfl := (List.cons_prefix_cons.mp hprefix).1
      exact absurd hor (by decide)

theorem split?_ne_none_of_digit (hdigit : r.head?.any Char.isDigit) : Numeral.split? r ≠ none := by
  have hminus : splitMinus r = ([], r) := by
    refine Numeral.splitMinus_eq_iff.mpr ⟨rfl, .inr ⟨rfl, fun hhead ↦ ?_⟩⟩
    rw [hhead] at hdigit
    exact absurd hdigit Bool.false_ne_true
  have hdigits : (splitDigits (splitMinus r).2).1 ≠ [] := by
    rw [hminus]
    exact any_isDigit_iff.mp hdigit
  rw [Numeral.split?]
  exact fun h ↦ absurd ((if_neg hdigits).symm.trans h) (Option.some_ne_none _)

theorem scalar_eq_number (hnumber : r.head?.any (fun c ↦ c = '-' || c.isDigit)) :
    Reader.scalar r = numberAnswer r := by
  obtain ⟨hquote, hword⟩ := not_word_of_number hnumber
  rw [scalar_eq_of_no_word hquote hword, numberAnswer]
  cases hsplit : Numeral.split? r with
  | some a => rfl
  | none =>
      have hdigit : ¬r.head?.any Char.isDigit := fun h ↦ split?_ne_none_of_digit h hsplit
      obtain ⟨c, hc, hor⟩ := (Option.any_eq_true _ _).mp hnumber
      have hminus : r.head? = some '-' := by simp_all
      rw [if_pos hminus]

theorem scalar_eq_unexpected (hquote : r.head? ≠ some '"')
    (hword : ∀ w ∈ words, ¬w.1.toList <+: r)
    (hnumber : ¬r.head?.any (fun c ↦ c = '-' || c.isDigit)) :
    Reader.scalar r = .error ⟨.unexpectedValue, r⟩ := by
  have hsplit : Numeral.split? r = none := by
    rw [Option.eq_none_iff_forall_ne_some]
    rintro ⟨o, r'⟩ h
    obtain ⟨rfl, ho⟩ := Numeral.number_of_split? h
    obtain ⟨c, o', rfl, hc⟩ := Reader.number_head ho
    exact hnumber (by simpa using hc)
  have hminus : r.head? ≠ some '-' := fun h ↦ hnumber (by rw [h]; rfl)
  rw [scalar_eq_of_no_word hquote hword, hsplit, if_neg hminus]

theorem gives_word (hs : s.Before text r) (hquote : r.head? ≠ some '"')
    (hnumber : ¬r.head?.any (fun c ↦ c = '-' || c.isDigit)) :
    Gives text Eq (word text) s (Reader.scalar r) := by
  rw [word]
  refine gives_bind_takeBytes hs fun s' hs' ↦ ?_
  rw [find?_words]
  cases hfind : words.find? fun w ↦ w.1.toList.isPrefixOf r with
  | none =>
      have hword : ∀ w ∈ words, ¬w.1.toList <+: r := by
        simpa [List.isPrefixOf_iff_prefix] using hfind
      rw [scalar_eq_unexpected hquote hword hnumber]
      exact gives_fail_here hs'
  | some w =>
      have hw : w ∈ words := List.mem_of_find?_eq_some hfind
      have hfound : w.1.toList.isPrefixOf r := by simpa using List.find?_some hfind
      obtain ⟨r, rfl⟩ := List.isPrefixOf_iff_prefix.mp hfound
      rw [scalar_of_mem_words hw]
      refine gives_bind_move.mpr (gives_pure ?_ rfl)
      rw [size_of_mem_words hw]
      exact hs'.move

end Dialogue.Document.Cursor
