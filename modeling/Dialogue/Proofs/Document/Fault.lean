import Dialogue.Proofs.Document.Parsing

/-!
# Faults are where they are said to be

A text that is no document is one up to the fault: it goes on to a document from there, and what
the fault says was expected is such a way to go on. Most faults are also the first character that
cannot stand there, and then nothing after it matters.

`Blames` is what is shown of each reader: every fault of it leaves a part of the text in front that
the grammar can complete. A fault inside a list is completed by the closing bracket of that list,
so the completions of nested readers are put together from the inside out.
-/

namespace Dialogue.Document

open Text (Blanks Spaced Separated Enclosed Reads Delimited skipBlanks)
open Grammar (Chars Number Scalar Entry Within)

/-! ## What a fault says -/

/-- What each would have been fine in the place of the fault. -/
def Cause.expected : Cause → List String
  | .expectedObject => ["\x7b"]
  | .expectedKey => ["\""]
  | .expectedColon => [":"]
  | .expectedSeparator close => [",", .singleton close]
  | .unexpectedValue | .tooDeep => ["0"]
  | .invalidNumber => ["-0"]
  | .unterminatedString => []

/-- The characters that a fault with a given cause may stand at; `none` if any may. -/
def Cause.marks : Cause → Option (List Char)
  | .invalidNumber => some ['-']
  | .tooDeep => some ['{', '[']
  | .unterminatedString => some ['"']
  | _ => none

/-- Whether the character at the fault is to blame, whatever follows it. -/
def Cause.isImmediate : Cause → Bool
  | .expectedObject | .expectedKey | .expectedColon | .expectedSeparator _ | .tooDeep => true
  | .unterminatedString | .invalidNumber | .unexpectedValue => false

namespace Reader

/-- How the text before a fault may go on. A string that does not end may do so as it stands. -/
def Fault.fixes (e : Fault) : List (List Char) :=
  if e.cause = .unterminatedString then [e.rest] else e.cause.expected.map String.toList

/-- The fault `e` comes after `p`, which can be completed to a text in `P`. At an immediate fault,
what follows the character in its place does not matter. -/
structure Explains (fails : List Char → Fault → Prop) (P : List Char → Prop) (p : List Char)
    (e : Fault) : Prop where
  completable {m : List Char} : m ∈ e.fixes → ∃ u, P (p ++ (m ++ u))
  marked (marks : List Char) : e.cause.marks = some marks → ∃ c ∈ e.rest.head?, c ∈ marks
  immediate {r : List Char} : e.cause.isImmediate → r.head? = e.rest.head? →
    fails (p ++ r) ⟨e.cause, r⟩

/-- Whatever a reader fails on, it fails at a place where a phrase could go on. -/
def Blames {α : Type} (read : Text.Reader Fault α) (P : List Char → α → Prop) : Prop :=
  ∀ s e, read s = .error e →
    ∃ p, s = p ++ e.rest ∧ Explains (fun s e ↦ read s = .error e) (fun s ↦ ∃ x, P s x) p e

/-- A fault stays the same behind a text that lets it through, where what completes the phrase
completes the larger one but for some text after it. -/
theorem Explains.within {fails fails' : List Char → Fault → Prop} {P Q : List Char → Prop}
    {p : List Char} {e : Fault} (h : Explains fails P p e) {a : List Char}
    (hP : ∀ s, P s → ∃ u, Q (a ++ (s ++ u)))
    (hfails : ∀ r, r.head? = e.rest.head? → fails (p ++ r) ⟨e.cause, r⟩ →
      fails' (a ++ (p ++ r)) ⟨e.cause, r⟩) : Explains fails' Q (a ++ p) e where
  completable hm := by
    obtain ⟨u, hu⟩ := h.completable hm
    obtain ⟨u', hu'⟩ := hP _ hu
    exact ⟨u ++ u', by simpa using hu'⟩
  marked := h.marked
  immediate hi hr := by
    rw [List.append_assoc]
    exact hfails _ hr (h.immediate hi hr)

/-! ## Scalars -/

theorem number_zero : Number ['0'] := by
  change Number ([] ++ (['0'] ++ ([] ++ [])))
  exact .mk (by simp) (by simp) (by simp [Grammar.Digits]) .none .none

theorem number_minusZero : Number ['-', '0'] := by
  change Number (['-'] ++ (['0'] ++ ([] ++ [])))
  exact .mk (by simp) (by simp) (by simp [Grammar.Digits]) .none .none

/-- The number that fits wherever a value does. -/
theorem scalar_zero : Scalar ['0'] (.number (.ofList ['0'])) := .number number_zero

/-- A fault in a scalar stands at its start, and is never an immediate one. -/
theorem scalar_explains {s : List Char} {e : Fault} (h : scalar s = .error e) :
    e.rest = s ∧ Explains (fun _ _ ↦ False) (fun s ↦ ∃ d, Scalar s d) [] e := by
  obtain ⟨rfl, ⟨hcause, t, hs, hscan⟩ | ⟨hcause, hs⟩ | hcause⟩ := scalar_error h
  · refine ⟨rfl, ?_, ?_, ?_⟩
    · intro m hm
      obtain rfl : m = e.rest := by simpa [Fault.fixes, hcause] using hm
      obtain ⟨u, k, hk⟩ := exists_chars_of_scan_eq_none hscan
      refine ⟨u ++ ['"'], .string (.ofList k), ?_⟩
      rw [hs, List.nil_append, List.cons_append, ← List.append_assoc]
      exact .string hk
    · intro marks hm
      rw [hcause] at hm
      cases hm
      exact ⟨'"', by rw [hs]; rfl, by simp⟩
    · intro r hi
      rw [hcause] at hi
      cases hi
  · refine ⟨rfl, ?_, ?_, ?_⟩
    · intro m hm
      obtain rfl : m = ['-', '0'] := by simpa [Fault.fixes, hcause, Cause.expected] using hm
      exact ⟨[], _, .number number_minusZero⟩
    · intro marks hm
      rw [hcause] at hm
      cases hm
      exact ⟨'-', hs, by simp⟩
    · intro r hi
      rw [hcause] at hi
      cases hi
  · refine ⟨rfl, ?_, ?_, ?_⟩
    · intro m hm
      obtain rfl : m = ['0'] := by simpa [Fault.fixes, hcause, Cause.expected] using hm
      exact ⟨[], _, scalar_zero⟩
    · intro marks hm
      rw [hcause] at hm
      cases hm
    · intro r hi
      rw [hcause] at hi
      cases hi

/-! ## Lists -/

section Lists

variable {α : Type} {element : Text.Reader Fault α} {P : List Char → α → Prop} {close : Char}

/-- What stands between an opening bracket and its closing one, with that one. -/
def Closed (close : Char) (P : List Char → α → Prop) (s : List Char) : Prop :=
  ∃ q xs, s = q ++ [close] ∧ Separated (Spaced P) q xs

/-- An element that is followed by something wrong. -/
theorem explains_stuck (h : Reads element P) (hsome : ∃ o x, P o x) {s r : List Char} {x : α}
    (he : element s = .ok (x, r)) (hstuck : ∀ c ∈ (skipBlanks r).head?, c ≠ close ∧ c ≠ ',') :
    ∃ p, s = p ++ skipBlanks r ∧
      Explains (Text.Reader.Fails element close (.mk (.expectedSeparator close)))
        (Closed close P) p ⟨.expectedSeparator close, skipBlanks r⟩ := by
  obtain ⟨w, o, rfl, hw, ho⟩ := h.sound he
  obtain ⟨w', hw', hr, hhead⟩ := Text.exists_blanks r
  have hspaced : Spaced P (w ++ (o ++ w')) x := .mk hw ho hw'
  refine ⟨w ++ (o ++ w'), by simp [← hr], ?_, (fun _ hm ↦ nomatch hm), ?_⟩
  · intro m hm
    obtain ⟨o₁, x₁, ho₁⟩ := hsome
    have hm : m = [','] ∨ m = [close] := by simpa [Fault.fixes, Cause.expected] using hm
    rcases hm with rfl | rfl
    · refine ⟨o₁ ++ [close], w ++ (o ++ w') ++ ',' :: o₁, [x, x₁], by simp,
        .cons hspaced (.one ?_)⟩
      simpa using Spaced.mk Text.blanks_nil ho₁ Text.blanks_nil
    · exact ⟨[], _, [x], by simp, .one hspaced⟩
  · intro r' _ hr'
    have hhead' : (w' ++ r').head? = r.head? := by
      rw [Numeral.head?_append_congr w' hr', ← hr]
    have he' : element (w ++ (o ++ w') ++ r') = .ok (x, w' ++ r') := by
      simpa using h.lookahead (q := w ++ o) (by simpa using he) hhead'
    have hskip : skipBlanks (w' ++ r') = r' := Text.skipBlanks_blanks_append hw' (hr' ▸ hhead)
    have hf : Text.Reader.Fails element close (.mk (.expectedSeparator close))
        (w ++ (o ++ w') ++ r') ⟨.expectedSeparator close, skipBlanks (w' ++ r')⟩ :=
      .stuck he' (by rw [hskip, hr']; exact hstuck)
    rwa [hskip] at hf

/-- A list fails where it cannot go on, and up to there it can be completed. -/
theorem explains_of_fails (h : Reads element P) (hb : Blames element (Spaced P))
    (hsome : ∃ o x, P o x) {s : List Char} {e : Fault}
    (hf : Text.Reader.Fails element close (.mk (.expectedSeparator close)) s e) :
    ∃ p, s = p ++ e.rest ∧
      Explains (Text.Reader.Fails element close (.mk (.expectedSeparator close)))
        (Closed close P) p e := by
  induction hf with
  | @broken s e he =>
      obtain ⟨p, hs, hp⟩ := hb s e he
      refine ⟨p, hs, ?_, hp.marked, fun hi hr ↦ .broken (hp.immediate hi hr)⟩
      intro m hm
      obtain ⟨u, x, hx⟩ := hp.completable hm
      exact ⟨u ++ [close], _, [x], by simp, .one hx⟩
  | stuck he hstuck => exact explains_stuck h hsome he hstuck
  | @later s x r t e he hr _ ih =>
      obtain ⟨p, rfl, hp⟩ := ih
      obtain ⟨w, o, rfl, hw, ho⟩ := h.sound he
      obtain ⟨w', hw', hr', -⟩ := Text.exists_blanks r
      have hspaced : Spaced P (w ++ (o ++ w')) x := .mk hw ho hw'
      rw [hr] at hr'
      subst hr'
      refine ⟨w ++ (o ++ w') ++ [','] ++ p, by simp, hp.within ?_ fun r' _ hf ↦ ?_⟩
      · rintro _ ⟨q, xs, rfl, hq⟩
        exact ⟨[], w ++ (o ++ w') ++ ',' :: q, x :: xs, by simp, .cons hspaced hq⟩
      · have hhead : (w' ++ ',' :: (p ++ r')).head? = (w' ++ ',' :: (p ++ e.rest)).head? :=
          Numeral.head?_append_congr w' rfl
        have he' : element (w ++ (o ++ w') ++ [','] ++ (p ++ r')) =
            .ok (x, w' ++ ',' :: (p ++ r')) := by
          simpa using h.lookahead (q := w ++ o) (by simpa using he) hhead
        exact .later he' (by rw [Text.skipBlanks_append hw']; rfl) hf

/-- A list in brackets fails as its elements do. -/
theorem enclosed_explains (h : Reads element P) (hb : Blames element (Spaced P))
    (hsome : ∃ o x, P o x) (hc : close ≠ ',') {s : List Char} {e : Fault}
    (hs : Text.Reader.enclosed element close (.mk (.expectedSeparator close)) s = .error e) :
    ∃ p, s = p ++ e.rest ∧ Explains
      (fun s e ↦ Text.Reader.enclosed element close (.mk (.expectedSeparator close)) s = .error e)
      (fun s ↦ ∃ xs, Enclosed close P s xs) p e := by
  obtain ⟨hclose, hf⟩ := (Text.Reader.enclosed_eq_error_iff h hc).mp hs
  obtain ⟨p, hp, hexplains⟩ := explains_of_fails h hb hsome hf
  obtain ⟨w, hw, heq, hhead⟩ := Text.exists_blanks s
  refine ⟨w ++ p, by rw [List.append_assoc, ← hp]; exact heq, hexplains.within ?_ ?_⟩
  · rintro _ ⟨q, xs, rfl, hq⟩
    refine ⟨[], xs, ?_⟩
    rw [List.append_nil, ← List.append_assoc]
    exact .elements (hq.blanks_append hw)
  · intro r hr hf'
    have hhead' : (p ++ r).head? = (skipBlanks s).head? := by
      rw [hp]
      exact Numeral.head?_append_congr p hr
    have hskip : skipBlanks (w ++ (p ++ r)) = p ++ r :=
      Text.skipBlanks_blanks_append hw (hhead' ▸ hhead)
    refine (Text.Reader.enclosed_eq_error_iff h hc).mpr ⟨fun t ht ↦ ?_, by rw [hskip]; exact hf'⟩
    rw [hskip] at ht
    rw [ht] at hhead'
    obtain ⟨t', ht'⟩ := List.head?_eq_some_iff.mp hhead'.symm
    exact hclose t' ht'

end Lists

/-! ## Entries -/

theorem key_expectedKey {w r : List Char} (hw : Blanks w)
    (hr : ∀ c ∈ r.head?, Text.isBlank c = false ∧ c ≠ '"') :
    key (w ++ r) = .error ⟨.expectedKey, r⟩ := by
  have hskip : skipBlanks (w ++ r) = r :=
    Text.skipBlanks_blanks_append hw fun c hc ↦ (hr c hc).1
  rw [key.eq_def, hskip]
  split
  · exact absurd rfl (hr '"' rfl).2
  · rfl

theorem key_expectedColon {w k t w' r : List Char} (hw : Blanks w) (hk : Chars k t)
    (hw' : Blanks w') (hr : ∀ c ∈ r.head?, Text.isBlank c = false ∧ c ≠ ':') :
    key (w ++ '"' :: (k ++ '"' :: (w' ++ r))) = .error ⟨.expectedColon, r⟩ := by
  have hstring : string (k ++ '"' :: (w' ++ r)) = .ok (.ofList t, w' ++ r) :=
    string_eq_ok_iff.mpr ⟨k, t, rfl, hk, rfl⟩
  have hskip : skipBlanks (w' ++ r) = r :=
    Text.skipBlanks_blanks_append hw' fun c hc ↦ (hr c hc).1
  rw [key.eq_def, Text.skipBlanks_append hw, Text.skipBlanks_cons rfl]
  simp only [hstring, hskip]
  split
  · exact absurd rfl (hr ':' rfl).2
  · rfl

/-- The ways in which a key can be wrong. -/
theorem key_error {s : List Char} {e : Fault} (h : key s = .error e) : ∃ w, Blanks w ∧
    ((s = w ++ e.rest ∧ e.cause = .expectedKey ∧
        ∀ c ∈ e.rest.head?, Text.isBlank c = false ∧ c ≠ '"') ∨
      (∃ t, s = w ++ e.rest ∧ e = ⟨.unterminatedString, '"' :: t⟩ ∧
        Text.Quoted.scan [] t = none) ∨
      ∃ k t w', s = w ++ '"' :: (k ++ '"' :: (w' ++ e.rest)) ∧ Chars k t ∧ Blanks w' ∧
        e.cause = .expectedColon ∧ ∀ c ∈ e.rest.head?, Text.isBlank c = false ∧ c ≠ ':') := by
  obtain ⟨w, hw, hs, hhead⟩ := Text.exists_blanks s
  refine ⟨w, hw, ?_⟩
  rw [key.eq_def] at h
  split at h
  · next r₁ hr₁ =>
      split at h
      · next e' hstring =>
          cases h
          rw [string] at hstring
          split at hstring
          · cases hstring
          · next hscan =>
              cases hstring
              exact .inr (.inl ⟨r₁, by rw [← hr₁]; exact hs, rfl, hscan⟩)
      · next name r₂ hstring =>
          obtain ⟨k, t, rfl, hk, rfl⟩ := string_eq_ok_iff.mp hstring
          obtain ⟨w', hw', hs', hhead'⟩ := Text.exists_blanks r₂
          split at h
          · cases h
          · next hne =>
              cases h
              refine .inr (.inr ⟨k, t, w', by rw [← hs', ← hr₁]; exact hs, hk, hw', rfl, ?_⟩)
              intro c hc
              exact ⟨hhead' c hc, Text.head?_ne_of_forall_ne_cons hne c hc⟩
  · next hne =>
      cases h
      refine .inl ⟨hs, rfl, ?_⟩
      intro c hc
      exact ⟨hhead c hc, Text.head?_ne_of_forall_ne_cons hne c hc⟩

theorem key_explains {s : List Char} {e : Fault} (h : key s = .error e) :
    ∃ p, s = p ++ e.rest ∧
      Explains (fun s e ↦ key s = .error e) (fun s ↦ ∃ name, key s = .ok (name, [])) p e := by
  obtain ⟨w, hw, ⟨hs, hcause, hhead⟩ | ⟨t, hs, rfl, hscan⟩ |
    ⟨k, t, w', hs, hk, hw', hcause, hhead⟩⟩ := key_error h
  · refine ⟨w, hs, ?_, ?_, ?_⟩
    · intro m hm
      obtain rfl : m = ['"'] := by simpa [Fault.fixes, hcause, Cause.expected] using hm
      exact ⟨['"', ':'], "", key_eq_ok_iff.mpr ⟨w, [], [], [], rfl, hw, .nil, by simp, rfl⟩⟩
    · intro marks hm
      rw [hcause] at hm
      cases hm
    · intro r _ hr
      rw [hcause]
      exact key_expectedKey hw (hr ▸ hhead)
  · refine ⟨w, hs, ?_, ?_, fun hi ↦ nomatch hi⟩
    · intro m hm
      obtain rfl : m = '"' :: t := by simpa [Fault.fixes] using hm
      obtain ⟨u, k, hk⟩ := exists_chars_of_scan_eq_none hscan
      exact ⟨u ++ ['"', ':'], .ofList k, key_eq_ok_iff.mpr
        ⟨w, t ++ u, k, [], by simp, hw, hk, by simp, rfl⟩⟩
    · intro marks hm
      cases hm
      exact ⟨'"', rfl, by simp⟩
  · refine ⟨w ++ '"' :: (k ++ '"' :: w'), by simpa using hs, ?_, ?_, ?_⟩
    · intro m hm
      obtain rfl : m = [':'] := by simpa [Fault.fixes, hcause, Cause.expected] using hm
      exact ⟨[], .ofList t, key_eq_ok_iff.mpr ⟨w, k, t, w', by simp, hw, hk, hw', rfl⟩⟩
    · intro marks hm
      rw [hcause] at hm
      cases hm
    · intro r _ hr
      rw [hcause]
      simpa using key_expectedColon hw hk hw' (hr ▸ hhead)

theorem entry_eq_error_iff {read : Text.Reader Fault Document} {s : List Char} {e : Fault} :
    entry read s = .error e ↔
      key s = .error e ∨ ∃ name r, key s = .ok (name, r) ∧ read r = .error e := by
  rw [entry]
  cases hkey : key s with
  | error e' => simp
  | ok y =>
      rw [Text.Reader.as_eq_error_iff]
      constructor
      · exact fun h ↦ .inr ⟨y.1, y.2, rfl, h⟩
      · rintro (h | ⟨name, r, hy, h⟩)
        · cases h
        · cases hy
          exact h

theorem blames_entry {read : Text.Reader Fault Document} {P : List Char → Document → Prop}
    (hb : Blames read (Spaced P)) (hsome : ∃ o d, P o d) :
    Blames (entry read) (Spaced (Entry P)) := by
  intro s e h
  rcases entry_eq_error_iff.mp h with hkey | ⟨name, r, hkey, hread⟩
  · obtain ⟨p, hs, hp⟩ := key_explains hkey
    refine ⟨p, hs, hp.within (a := []) ?_ fun r _ hf ↦ entry_eq_error_iff.mpr (.inl hf)⟩
    rintro s ⟨name, hname⟩
    obtain ⟨w, k, t, w', rfl, hw, hk, hw', rfl⟩ := key_eq_ok_iff.mp hname
    obtain ⟨o, d, ho⟩ := hsome
    refine ⟨o, (.ofList t, d), ?_⟩
    simpa using Spaced.mk hw (Entry.mk hk hw' Text.blanks_nil ho) Text.blanks_nil
  · obtain ⟨p, rfl, hp⟩ := hb r e hread
    obtain ⟨w, k, t, w', rfl, hw, hk, hw', rfl⟩ := key_eq_ok_iff.mp hkey
    refine ⟨w ++ '"' :: (k ++ '"' :: (w' ++ [':'])) ++ p, by simp, hp.within ?_ fun r _ hf ↦ ?_⟩
    · rintro _ ⟨d, ⟨hw₁, hv, hw₂⟩⟩
      refine ⟨[], (.ofList t, d), ?_⟩
      simpa using Spaced.mk hw (Entry.mk hk hw' hw₁ hv) hw₂
    · refine entry_eq_error_iff.mpr (.inr ⟨.ofList t, p ++ r, ?_, hf⟩)
      exact key_eq_ok_iff.mpr ⟨w, k, t, w', by simp, hw, hk, hw', rfl⟩

/-! ## Values -/

section Values

variable {n : Nat} (hb : Blames (value n) (Spaced (Within n)))
include hb

theorem array_explains {s : List Char} {e : Fault} (h : array (value n) s = .error e) :
    ∃ p, s = p ++ e.rest ∧ Explains (fun s e ↦ array (value n) s = .error e)
      (fun s ↦ ∃ items, Enclosed ']' (Within n) s items) p e := by
  simp only [array, Text.Reader.as_eq_error_iff] at h ⊢
  exact enclosed_explains (reads_value n) hb ⟨_, _, Grammar.within_of_scalar n scalar_zero⟩
    (by decide) h

theorem object_explains {s : List Char} {e : Fault} (h : object (value n) s = .error e) :
    ∃ p, s = p ++ e.rest ∧ Explains (fun s e ↦ object (value n) s = .error e)
      (fun s ↦ ∃ written, Enclosed '}' (Entry (Within n)) s written) p e := by
  simp only [object, Text.Reader.as_eq_error_iff] at h ⊢
  have hzero : Within n ['0'] _ := Grammar.within_of_scalar n scalar_zero
  exact enclosed_explains (reads_entry (reads_value n)) (blames_entry hb ⟨_, _, hzero⟩)
    ⟨_, _, .mk .nil Text.blanks_nil Text.blanks_nil hzero⟩ (by decide) h

/-- A container that is broken inside. -/
theorem container_explains {s t : List Char} {c : Char} {e : Fault} (hc : c = '{' ∨ c = '[')
    (hs : skipBlanks s = c :: t) (h : value (n + 1) s = .error e) :
    ∃ p, s = p ++ e.rest ∧ Explains (fun s e ↦ value (n + 1) s = .error e)
      (fun s ↦ ∃ d, Spaced (Within (n + 1)) s d) p e := by
  obtain ⟨w, hw, heq, -⟩ := Text.exists_blanks s
  rcases hc with rfl | rfl
  · rw [value_eq_object n hs] at h
    obtain ⟨p, rfl, hp⟩ := object_explains hb h
    refine ⟨w ++ ['{'] ++ p, by rw [heq, hs]; simp, hp.within ?_ fun r _ hf ↦ ?_⟩
    · rintro s ⟨written, hwritten⟩
      refine ⟨[], .object (merged written), ?_⟩
      simpa using Spaced.mk hw (Grammar.within_iff.mpr (.object hwritten)) Text.blanks_nil
    · rw [value_eq_object n (t := p ++ r)]
      · exact hf
      · rw [List.append_assoc, Text.skipBlanks_append hw]
        rfl
  · rw [value_eq_array n hs] at h
    obtain ⟨p, rfl, hp⟩ := array_explains hb h
    refine ⟨w ++ ['['] ++ p, by rw [heq, hs]; simp, hp.within ?_ fun r _ hf ↦ ?_⟩
    · rintro s ⟨items, hitems⟩
      refine ⟨[], .array items, ?_⟩
      simpa using Spaced.mk hw (Grammar.within_iff.mpr (.array hitems)) Text.blanks_nil
    · rw [value_eq_array n (t := p ++ r)]
      · exact hf
      · rw [List.append_assoc, Text.skipBlanks_append hw]
        rfl

end Values

theorem tooDeep_explains {s t : List Char} {c : Char} (hc : c = '{' ∨ c = '[')
    (hs : skipBlanks s = c :: t) :
    ∃ p, s = p ++ c :: t ∧ Explains (fun s e ↦ value 0 s = .error e)
      (fun s ↦ ∃ d, Spaced (Within 0) s d) p ⟨.tooDeep, c :: t⟩ := by
  obtain ⟨w, hw, heq, hhead⟩ := Text.exists_blanks s
  rw [hs] at heq hhead
  refine ⟨w, heq, ?_, ?_, ?_⟩
  · intro m hm
    obtain rfl : m = ['0'] := by simpa [Fault.fixes, Cause.expected] using hm
    exact ⟨[], _, .mk hw (Grammar.within_of_scalar 0 scalar_zero) Text.blanks_nil⟩
  · intro marks hm
    cases hm
    exact ⟨c, rfl, by simpa using hc⟩
  · intro r _ hr
    obtain ⟨r', rfl⟩ := List.head?_eq_some_iff.mp hr
    exact value_eq_tooDeep hc (Text.skipBlanks_blanks_append hw hhead)

theorem value_explains_of_scalar {n : Nat} {s : List Char} {e : Fault}
    (hbrace : ∀ r, skipBlanks s ≠ '{' :: r) (hbracket : ∀ r, skipBlanks s ≠ '[' :: r)
    (h : value n s = .error e) :
    ∃ p, s = p ++ e.rest ∧ Explains (fun s e ↦ value n s = .error e)
      (fun s ↦ ∃ d, Spaced (Within n) s d) p e := by
  obtain ⟨w, hw, hs, -⟩ := Text.exists_blanks s
  rw [value_eq_scalar n rfl hbrace hbracket] at h
  obtain ⟨hrest, hp⟩ := scalar_explains h
  refine ⟨w ++ [], by rw [hrest, List.append_nil]; exact hs, hp.within ?_ fun _ _ hf ↦ hf.elim⟩
  rintro s ⟨d, hd⟩
  refine ⟨[], d, ?_⟩
  simpa using Spaced.mk hw (Grammar.within_of_scalar n hd) Text.blanks_nil

/-- The reader of values fails only where a value could go on. -/
theorem blames_value (n : Nat) : Blames (value n) (Spaced (Within n)) := by
  induction n with
  | zero =>
      intro s e h
      rcases opening_cases (skipBlanks s) with ⟨c, t, ht, hc⟩ | ⟨hbrace, hbracket⟩
      · rw [value_eq_tooDeep hc ht] at h
        cases h
        exact tooDeep_explains hc ht
      · exact value_explains_of_scalar hbrace hbracket h
  | succ n ih =>
      intro s e h
      rcases opening_cases (skipBlanks s) with ⟨c, t, ht, hc⟩ | ⟨hbrace, hbracket⟩
      · exact container_explains ih hc ht h
      · exact value_explains_of_scalar hbrace hbracket h

/-! ## Documents -/

theorem root_expectedObject {w r : List Char} (hw : Blanks w)
    (hr : ∀ c ∈ r.head?, Text.isBlank c = false ∧ c ≠ '{') :
    root (w ++ r) = .error ⟨.expectedObject, r⟩ := by
  have hskip : skipBlanks (w ++ r) = r :=
    Text.skipBlanks_blanks_append hw fun c hc ↦ (hr c hc).1
  rw [root.eq_def, hskip]
  split
  · exact absurd rfl (hr '{' rfl).2
  · rfl

theorem root_explains {s : List Char} {e : Fault} (h : root s = .error e) :
    ∃ p, s = p ++ e.rest ∧
      Explains (fun s e ↦ root s = .error e) (fun s ↦ ∃ d, root s = .ok (d, [])) p e := by
  obtain ⟨w, hw, hs, hhead⟩ := Text.exists_blanks s
  rw [root.eq_def] at h
  split at h
  · next t ht =>
      obtain ⟨p, rfl, hp⟩ := object_explains (blames_value maxDepth) h
      refine ⟨w ++ ['{'] ++ p, by rw [hs, ht]; simp, hp.within ?_ fun r _ hf ↦ ?_⟩
      · rintro s ⟨written, hwritten⟩
        refine ⟨[], .object (merged written), root_eq_ok_iff.mpr ?_⟩
        exact ⟨w, s, by simp, hw, written, hwritten, rfl⟩
      · rw [List.append_assoc, List.cons_append, List.nil_append, root_eq_object hw]
        exact hf
  · next hne =>
      cases h
      have hhead' : ∀ c ∈ (skipBlanks s).head?, Text.isBlank c = false ∧ c ≠ '{' := by
        intro c hc
        exact ⟨hhead c hc, Text.head?_ne_of_forall_ne_cons hne c hc⟩
      refine ⟨w, hs, ?_, by simp [Cause.marks], ?_⟩
      · intro m hm
        obtain rfl : m = ['{'] := by simpa [Fault.fixes, Cause.expected] using hm
        refine ⟨['}'], .object [], root_eq_ok_iff.mpr ⟨w, ['}'], by simp, hw, [], ?_, rfl⟩⟩
        exact .empty Text.blanks_nil
      · intro r _ hr
        exact root_expectedObject hw (hr ▸ hhead')

end Reader

/-! ## Offsets -/

@[simp] theorem utf8Size_nil : utf8Size [] = 0 := rfl

@[simp] theorem utf8Size_cons (c : Char) (s : List Char) :
    utf8Size (c :: s) = c.utf8Size + utf8Size s := rfl

@[simp] theorem utf8Size_append (s r : List Char) :
    utf8Size (s ++ r) = utf8Size s + utf8Size r := by
  induction s with
  | nil => simp
  | cons c s ih => simp [ih, Nat.add_assoc]

theorem utf8ByteSize_ofList (s : List Char) : (String.ofList s).utf8ByteSize = utf8Size s := by
  induction s with
  | nil => rfl
  | cons c s ih =>
      have hcons : String.ofList (c :: s) = String.singleton c ++ String.ofList s := by
        rw [String.singleton_eq_ofList, ← String.ofList_append]
        rfl
      rw [hcons, String.utf8ByteSize_append, String.utf8ByteSize_singleton, ih, utf8Size_cons]

/-- A text is viable if it goes on to one that is read as a document. -/
def Viable (p : String) : Prop := ∃ u d, parse (p ++ u) = .ok d

theorem viable_of_root {p : List Char} (h : ∃ u d, Reader.root (p ++ u) = .ok (d, [])) :
    Viable (.ofList p) := by
  obtain ⟨u, d, hroot⟩ := h
  refine ⟨.ofList u, d, ?_⟩
  rw [parse, ← String.ofList_append, String.toList_ofList, hroot]

theorem Viable.of_append {p r : String} (h : Viable (p ++ r)) : Viable p := by
  obtain ⟨u, d, hd⟩ := h
  exact ⟨r ++ u, d, by rw [← String.append_assoc]; exact hd⟩

theorem parse_of_root_error {text : String} {cause : Cause} {rest : List Char}
    (h : Reader.root text.toList = .error ⟨cause, rest⟩) :
    parse text = .error ⟨cause, utf8Size text.toList - utf8Size rest⟩ := by
  rw [parse, h]

/-- The fault that an error was made of. -/
theorem exists_fault {text : String} {e : SyntaxError} (h : parse text = .error e) :
    ∃ p r, text = .ofList (p ++ r) ∧ utf8Size p = e.offset ∧
      Reader.Explains (fun s e ↦ Reader.root s = .error e)
        (fun s ↦ ∃ d, Reader.root s = .ok (d, [])) p ⟨e.cause, r⟩ := by
  rw [parse] at h
  split at h
  · cases h
  · next f hroot =>
      cases h
      obtain ⟨p, hp, hexplains⟩ := Reader.root_explains hroot
      refine ⟨p, f.rest, by rw [← hp, String.ofList_toList], ?_, hexplains⟩
      rw [hp, utf8Size_append, Nat.add_sub_cancel]

theorem exists_fix (e : Reader.Fault) : ∃ m, m ∈ e.fixes := by
  rcases e with ⟨cause, rest⟩
  cases cause <;> simp [Reader.Fault.fixes, Cause.expected]

theorem mem_fixes_of_expected {e : Reader.Fault} {fix : String} (h : fix ∈ e.cause.expected) :
    fix.toList ∈ e.fixes := by
  rw [Reader.Fault.fixes, if_neg]
  · exact List.mem_map_of_mem h
  · intro hcause
    rw [hcause] at h
    cases h

/-- The error `e` of a text is found between `before` and `after`. -/
structure SyntaxError.Between (e : SyntaxError) (before after : String) : Prop where
  offset_eq : e.offset = before.utf8ByteSize
  /-- Up to the fault nothing is wrong. -/
  viable : Viable before
  /-- What was expected would have been fine. -/
  expected : ∀ fix ∈ e.cause.expected, Viable (before ++ fix)
  invalidNumber : e.cause = .invalidNumber → after.toList.head? = some '-'
  tooDeep : e.cause = .tooDeep →
    after.toList.head? = some '{' ∨ after.toList.head? = some '['
  unterminatedString : e.cause = .unterminatedString →
    after.toList.head? = some '"' ∧ Viable (before ++ after)
  /-- With the same character there, no text is read, nor refused for another reason. -/
  immediate : e.cause.isImmediate → ∀ (c : Char) (rest other : String),
    after = .singleton c ++ rest → parse (before ++ .singleton c ++ other) = .error e

theorem between_of_explains {p r : List Char} {e : SyntaxError} (hsize : utf8Size p = e.offset)
    (hp : Reader.Explains (fun s e ↦ Reader.root s = .error e)
      (fun s ↦ ∃ d, Reader.root s = .ok (d, [])) p ⟨e.cause, r⟩) :
    e.Between (.ofList p) (.ofList r) := by
  have hviable : ∀ m ∈ Reader.Fault.fixes ⟨e.cause, r⟩, Viable (.ofList p ++ .ofList m) := by
    intro m hm
    obtain ⟨u, d, hd⟩ := hp.completable hm
    rw [← String.ofList_append]
    exact viable_of_root ⟨u, d, by rw [List.append_assoc]; exact hd⟩
  refine ⟨by rw [utf8ByteSize_ofList, hsize], ?_, ?_, ?_, ?_, ?_, ?_⟩
  · obtain ⟨m, hm⟩ := exists_fix ⟨e.cause, r⟩
    exact (hviable m hm).of_append
  · intro fix hfix
    have hfix := hviable _ (mem_fixes_of_expected hfix)
    rwa [String.ofList_toList] at hfix
  · intro hcause
    obtain ⟨c, hc, hmark⟩ := hp.marked ['-'] (by rw [hcause]; rfl)
    rw [String.toList_ofList, ← List.mem_singleton.mp hmark]
    exact hc
  · intro hcause
    obtain ⟨c, hc, hmark⟩ := hp.marked ['{', '['] (by rw [hcause]; rfl)
    rw [String.toList_ofList, ← Option.mem_def, ← Option.mem_def]
    rcases List.mem_cons.mp hmark with rfl | hmark
    · exact .inl hc
    · exact .inr (List.mem_singleton.mp hmark ▸ hc)
  · intro hcause
    obtain ⟨c, hc, hmark⟩ := hp.marked ['"'] (by rw [hcause]; rfl)
    refine ⟨?_, hviable r (by simp [Reader.Fault.fixes, hcause])⟩
    rw [String.toList_ofList, ← List.mem_singleton.mp hmark]
    exact hc
  · intro hi c rest other hrest
    have hr : r = c :: rest.toList := by simpa using congrArg String.toList hrest
    have hroot := hp.immediate (r := c :: other.toList) hi (by rw [hr]; rfl)
    have htext : (String.ofList p ++ .singleton c ++ other).toList = p ++ c :: other.toList := by
      simp
    rw [parse_of_root_error (htext ▸ hroot), htext, utf8Size_append, Nat.add_sub_cancel, hsize]

/-- A text that is refused can be read up to the fault, and the fault is the first place where it
cannot be. -/
theorem parse_error_between {text : String} {e : SyntaxError} (h : parse text = .error e) :
    e.offset ≤ text.utf8ByteSize ∧ String.Pos.Raw.IsValid text ⟨e.offset⟩ ∧
      ∃ before after, text = before ++ after ∧ e.Between before after := by
  obtain ⟨p, r, rfl, hsize, hp⟩ := exists_fault h
  have hbetween := between_of_explains hsize hp
  rw [String.ofList_append]
  refine ⟨?_, ?_, .ofList p, .ofList r, rfl, hbetween⟩
  · rw [String.utf8ByteSize_append, hbetween.offset_eq]
    exact Nat.le_add_right _ _
  · refine String.Pos.Raw.isValid_iff_exists_append.mpr ⟨_, _, rfl, ?_⟩
    exact String.Pos.Raw.ext hbetween.offset_eq

/-- The key has two characters, one of them of two bytes, and a blank after it. -/
theorem parse_error_between_missing_colon :
    parse "\x7b\"aä\" 1\x7d" = .error ⟨.expectedColon, 7⟩ ∧
      7 ≤ "\x7b\"aä\" 1\x7d".utf8ByteSize ∧ String.Pos.Raw.IsValid "\x7b\"aä\" 1\x7d" ⟨7⟩ ∧
      ∃ before after, "\x7b\"aä\" 1\x7d" = before ++ after ∧
        SyntaxError.Between ⟨.expectedColon, 7⟩ before after := by
  have h : parse "\x7b\"aä\" 1\x7d" = .error ⟨.expectedColon, 7⟩ := by rfl
  exact ⟨h, parse_error_between h⟩

end Dialogue.Document
