import Dialogue.Proofs.Document.Token

/-!
# Reading is the grammar

A text is read as a document exactly if it starts, after blanks, with an object of the grammar that
nests at most 257 deep, and what is read is the tree of that object with repeated keys merged.

The readers of values and of entries are shown to take the phrases of the grammar and to look one
character further; the induction is on the room that is left for containers.
-/

namespace Dialogue.Document

open Text (Blanks Enclosed Reads Delimited skipBlanks)
open Grammar (Chars Scalar Entry Layer Value Within)

namespace Reader

/-! ## Entries -/

theorem key_eq_ok_iff {s : List Char} {name : String} {r : List Char} :
    key s = .ok (name, r) ↔ ∃ w k t w', s = w ++ '"' :: (k ++ '"' :: (w' ++ ':' :: r)) ∧
      Blanks w ∧ Chars k t ∧ Blanks w' ∧ name = .ofList t := by
  constructor
  · intro h
    obtain ⟨w, hw, hs, -⟩ := Text.exists_blanks s
    rw [key.eq_def] at h
    split at h
    · next r₁ hr₁ =>
        split at h
        · cases h
        · next name' r₂ hstring =>
            obtain ⟨w', hw', hs', -⟩ := Text.exists_blanks r₂
            split at h
            · next r₃ hr₃ =>
                cases h
                obtain ⟨k, t, rfl, hk, rfl⟩ := string_eq_ok_iff.mp hstring
                exact ⟨w, k, t, w', by rw [hs, hr₁, ← hr₃, ← hs'], hw, hk, hw', rfl⟩
            · cases h
    · cases h
  · rintro ⟨w, k, t, w', rfl, hw, hk, hw', rfl⟩
    have hstring : string (k ++ '"' :: (w' ++ ':' :: r)) = .ok (.ofList t, w' ++ ':' :: r) :=
      string_eq_ok_iff.mpr ⟨k, t, rfl, hk, rfl⟩
    simp [key, Text.skipBlanks_append hw, Text.skipBlanks_append hw',
      Text.skipBlanks_cons (show Text.isBlank '"' = false from rfl),
      Text.skipBlanks_cons (show Text.isBlank ':' = false from rfl), hstring]

theorem entry_eq_ok_iff {read : Text.Reader Fault Document} {s : List Char}
    {e : String × Document} {r : List Char} :
    entry read s = .ok (e, r) ↔ ∃ r', key s = .ok (e.1, r') ∧ read r' = .ok (e.2, r) := by
  rw [entry]
  cases hkey : key s with
  | error => simp
  | ok y =>
      rw [Text.Reader.as_eq_ok_iff]
      constructor
      · rintro ⟨d, hd, rfl⟩
        exact ⟨_, rfl, hd⟩
      · rintro ⟨r', hy, hd⟩
        cases hy
        exact ⟨e.2, hd, rfl⟩

theorem reads_entry {read : Text.Reader Fault Document} {P : List Char → Document → Prop}
    (h : Reads read P) : Reads (entry read) (Entry P) where
  sound {s e r} hs := by
    obtain ⟨r', hkey, hread⟩ := entry_eq_ok_iff.mp hs
    obtain ⟨w, k, t, w', rfl, hw, hk, hw', hname⟩ := key_eq_ok_iff.mp hkey
    obtain ⟨w'', v, rfl, hw'', hv⟩ := h.sound hread
    obtain ⟨name, d⟩ := e
    obtain rfl := hname
    exact ⟨w, _, by simp, hw, .mk hk hw' hw'' hv⟩
  complete {w o e r} hw ho hr := by
    cases ho with
    | @mk k t w' w'' v d hk hw' hw'' hv =>
        refine entry_eq_ok_iff.mpr ⟨w'' ++ (v ++ r), ?_, h.complete hw'' hv hr⟩
        exact key_eq_ok_iff.mpr ⟨w, k, t, w', by simp, hw, hk, hw', rfl⟩
  lookahead {q r r' e} hs hr := by
    obtain ⟨r₁, hkey, hread⟩ := entry_eq_ok_iff.mp hs
    obtain ⟨w, k, t, w', hq, hw, hk, hw', hname⟩ := key_eq_ok_iff.mp hkey
    obtain ⟨w'', v, rfl, hw'', hv⟩ := h.sound hread
    have hq' : q ++ r = w ++ '"' :: (k ++ '"' :: (w' ++ ':' :: (w'' ++ v))) ++ r := by
      simpa using hq
    obtain rfl := List.append_cancel_right hq'
    have hread' : read (w'' ++ v ++ r') = .ok (e.2, r') :=
      h.lookahead (by simpa using hread) hr
    refine entry_eq_ok_iff.mpr ⟨w'' ++ v ++ r', ?_, hread'⟩
    exact key_eq_ok_iff.mpr ⟨w, k, t, w', by simp, hw, hk, hw', hname⟩
  starts ho := by
    cases ho with
    | mk => exact ⟨'"', _, rfl, rfl, by decide, by decide⟩

/-! ## Values

What `value` does after blanks, by the first character of the value. -/

theorem value_eq_scalar (n : Nat) {s t : List Char} (hs : skipBlanks s = t)
    (hbrace : ∀ r, t ≠ '{' :: r) (hbracket : ∀ r, t ≠ '[' :: r) : value n s = scalar t := by
  cases n with
  | zero =>
      rw [value, hs]
      split
      · exact absurd rfl (hbrace _)
      · exact absurd rfl (hbracket _)
      · rfl
  | succ n =>
      rw [value, hs]
      split
      · exact absurd rfl (hbrace _)
      · exact absurd rfl (hbracket _)
      · rfl

theorem value_eq_array (n : Nat) {s t : List Char} (hs : skipBlanks s = '[' :: t) :
    value (n + 1) s = array (value n) t := by
  simp only [value, hs]

theorem value_eq_object (n : Nat) {s t : List Char} (hs : skipBlanks s = '{' :: t) :
    value (n + 1) s = object (value n) t := by
  simp only [value, hs]

theorem value_eq_tooDeep {s t : List Char} {c : Char} (hc : c = '{' ∨ c = '[')
    (hs : skipBlanks s = c :: t) : value 0 s = .error ⟨.tooDeep, c :: t⟩ := by
  rcases hc with rfl | rfl <;> simp only [value, hs]

/-- A container starts a value, or none does. -/
theorem opening_cases (t : List Char) :
    (∃ c r, t = c :: r ∧ (c = '{' ∨ c = '[')) ∨ (∀ r, t ≠ '{' :: r) ∧ ∀ r, t ≠ '[' :: r := by
  cases t with
  | nil => exact .inr ⟨(fun r h ↦ nomatch h), (fun r h ↦ nomatch h)⟩
  | cons c r =>
      by_cases hc : c = '{' ∨ c = '['
      · exact .inl ⟨c, r, rfl, hc⟩
      · rw [not_or] at hc
        exact .inr ⟨fun r h ↦ hc.1 (List.cons.inj h).1, fun r h ↦ hc.2 (List.cons.inj h).1⟩

/-- No value starts with a blank. -/
theorem isBlank_eq_false {c : Char} (hc : c ∈ ['{', '[', '"', 't', 'f', 'n', '-'] ∨ c.isDigit) :
    Text.isBlank c = false := by
  rw [Bool.eq_false_iff]
  intro hb
  rw [Text.isBlank_iff] at hb
  simp only [List.mem_cons, List.not_mem_nil, or_false] at hb
  rcases hb with rfl | rfl | rfl | rfl <;> exact absurd hc (by decide)

theorem value_of_scalar (n : Nat) {w o : List Char} {d : Document} (hw : Blanks w)
    (ho : Scalar o d) (r : List Char) : value n (w ++ (o ++ r)) = scalar (o ++ r) := by
  obtain ⟨c, o', rfl, hc⟩ := scalar_head ho
  have hblank : Text.isBlank c = false :=
    isBlank_eq_false (hc.imp_left fun hc ↦ List.mem_cons_of_mem _ (List.mem_cons_of_mem _ hc))
  apply value_eq_scalar n
  · rw [Text.skipBlanks_append hw]
    exact Text.skipBlanks_cons hblank _
  · intro r' h
    obtain rfl := (List.cons.inj h).1
    exact absurd hc (by decide)
  · intro r' h
    obtain rfl := (List.cons.inj h).1
    exact absurd hc (by decide)

section Layer

variable {n : Nat} (h : Reads (value n) (Within n))
include h

theorem array_eq_ok_iff {s : List Char} {d : Document} {r : List Char} :
    array (value n) s = .ok (d, r) ↔
      ∃ q items, s = q ++ r ∧ Enclosed ']' (Within n) q items ∧ d = .array items := by
  rw [array, Text.Reader.as_eq_ok_iff]
  constructor
  · rintro ⟨items, hitems, rfl⟩
    obtain ⟨q, rfl, hq⟩ := (Text.Reader.enclosed_eq_ok_iff h (by simp)).mp hitems
    exact ⟨q, items, rfl, hq, rfl⟩
  · rintro ⟨q, items, rfl, hq, rfl⟩
    exact ⟨items, (Text.Reader.enclosed_eq_ok_iff h (by simp)).mpr ⟨q, rfl, hq⟩, rfl⟩

theorem object_eq_ok_iff {s : List Char} {d : Document} {r : List Char} :
    object (value n) s = .ok (d, r) ↔ ∃ q written, s = q ++ r ∧
      Enclosed '}' (Entry (Within n)) q written ∧ d = .object (merged written) := by
  rw [object, Text.Reader.as_eq_ok_iff]
  constructor
  · rintro ⟨written, hwritten, rfl⟩
    obtain ⟨q, rfl, hq⟩ := (Text.Reader.enclosed_eq_ok_iff (reads_entry h) (by simp)).mp hwritten
    exact ⟨q, written, rfl, hq, by rw [collapse_eq_merged]⟩
  · rintro ⟨q, written, rfl, hq, rfl⟩
    exact ⟨written, (Text.Reader.enclosed_eq_ok_iff (reads_entry h) (by simp)).mpr ⟨q, rfl, hq⟩,
      by rw [collapse_eq_merged]⟩

theorem value_of_array {w q : List Char} {items : List Document} (hw : Blanks w)
    (hq : Enclosed ']' (Within n) q items) (r : List Char) :
    value (n + 1) (w ++ ('[' :: q ++ r)) = .ok (.array items, r) := by
  rw [value_eq_array n (t := q ++ r)]
  · exact (array_eq_ok_iff h).mpr ⟨q, items, rfl, hq, rfl⟩
  · rw [Text.skipBlanks_append hw]
    rfl

theorem value_of_object {w q : List Char} {written : List (String × Document)} (hw : Blanks w)
    (hq : Enclosed '}' (Entry (Within n)) q written) (r : List Char) :
    value (n + 1) (w ++ ('{' :: q ++ r)) = .ok (.object (merged written), r) := by
  rw [value_eq_object n (t := q ++ r)]
  · exact (object_eq_ok_iff h).mpr ⟨q, written, rfl, hq, rfl⟩
  · rw [Text.skipBlanks_append hw]
    rfl

end Layer

theorem within_head {n : Nat} {o : List Char} {d : Document} (h : Within n o d) :
    ∃ c o', o = c :: o' ∧ (c ∈ ['{', '[', '"', 't', 'f', 'n', '-'] ∨ c.isDigit) := by
  cases Grammar.within_iff.mp h with
  | scalar ho =>
      obtain ⟨c, o', rfl, hc⟩ := scalar_head ho
      exact ⟨c, o', rfl, hc.imp_left fun hc ↦ by simp_all⟩
  | array => exact ⟨'[', _, rfl, by simp⟩
  | object => exact ⟨'{', _, rfl, by simp⟩

theorem value_sound {n : Nat} (h : ∀ m, n = m + 1 → Reads (value m) (Within m)) {s : List Char}
    {d : Document} {r : List Char} (hs : value n s = .ok (d, r)) :
    ∃ w o, s = w ++ (o ++ r) ∧ Blanks w ∧ Within n o d := by
  obtain ⟨w, hw, heq, -⟩ := Text.exists_blanks s
  rcases opening_cases (skipBlanks s) with ⟨c, t, ht, hc⟩ | ⟨hbrace, hbracket⟩
  · cases n with
    | zero =>
        rw [value_eq_tooDeep hc ht] at hs
        cases hs
    | succ n =>
        have hn := h n rfl
        rw [ht] at heq
        rcases hc with rfl | rfl
        · rw [value_eq_object n ht] at hs
          obtain ⟨q, written, rfl, hq, rfl⟩ := (object_eq_ok_iff hn).mp hs
          exact ⟨w, '{' :: q, heq, hw, Grammar.within_iff.mpr (.object hq)⟩
        · rw [value_eq_array n ht] at hs
          obtain ⟨q, items, rfl, hq, rfl⟩ := (array_eq_ok_iff hn).mp hs
          exact ⟨w, '[' :: q, heq, hw, Grammar.within_iff.mpr (.array hq)⟩
  · rw [value_eq_scalar n rfl hbrace hbracket] at hs
    obtain ⟨o, ho, hscalar⟩ := scalar_sound hs
    exact ⟨w, o, by rw [← ho]; exact heq, hw, Grammar.within_of_scalar n hscalar⟩

theorem reads_value_of_smaller {n : Nat} (h : ∀ m, n = m + 1 → Reads (value m) (Within m)) :
    Reads (value n) (Within n) where
  sound := value_sound h
  complete {w o d r} hw ho hr := by
    cases Grammar.within_iff.mp ho with
    | scalar ho =>
        rw [value_of_scalar n hw ho]
        exact scalar_complete ho hr
    | array henc => exact value_of_array (h _ rfl) hw henc r
    | object henc => exact value_of_object (h _ rfl) hw henc r
  lookahead {q r r' d} hs hr := by
    obtain ⟨w, o, hq, hw, ho⟩ := value_sound h hs
    rw [← List.append_assoc] at hq
    obtain rfl := List.append_cancel_right hq
    rw [List.append_assoc] at hs ⊢
    cases Grammar.within_iff.mp ho with
    | scalar ho =>
        rw [value_of_scalar n hw ho] at hs ⊢
        exact scalar_lookahead hs hr
    | array henc => exact value_of_array (h _ rfl) hw henc r'
    | object henc => exact value_of_object (h _ rfl) hw henc r'
  starts ho := by
    obtain ⟨c, o', rfl, hc⟩ := within_head ho
    refine ⟨c, o', rfl, ?_, ?_, ?_⟩
    · exact isBlank_eq_false hc
    · rintro rfl
      exact absurd hc (by decide)
    · rintro rfl
      exact absurd hc (by decide)

/-- Values are read as the grammar has them, one character of lookahead included. -/
theorem reads_value (n : Nat) : Reads (value n) (Within n) := by
  induction n with
  | zero => exact reads_value_of_smaller fun m hm ↦ nomatch hm
  | succ n ih =>
      apply reads_value_of_smaller
      intro m hm
      obtain rfl := Nat.succ.inj hm
      exact ih

/-! ## Documents -/

/-- What stands after the opening brace of a root object, and its tree. -/
def Root (s : List Char) (d : Document) : Prop :=
  ∃ written, Enclosed '}' (Entry (Within maxDepth)) s written ∧ d = .object (merged written)

theorem root_eq_object {w : List Char} (hw : Blanks w) (s : List Char) :
    root (w ++ '{' :: s) = object (value maxDepth) s := by
  have hs : skipBlanks (w ++ '{' :: s) = '{' :: s := Text.skipBlanks_append hw _
  simp only [root, hs]

theorem root_eq_ok_iff {s : List Char} {d : Document} {r : List Char} :
    root s = .ok (d, r) ↔ ∃ w q, s = w ++ '{' :: (q ++ r) ∧ Blanks w ∧ Root q d := by
  constructor
  · intro h
    obtain ⟨w, hw, hs, -⟩ := Text.exists_blanks s
    rw [root.eq_def] at h
    split at h
    · next t ht =>
        obtain ⟨q, written, rfl, hq, rfl⟩ := (object_eq_ok_iff (reads_value maxDepth)).mp h
        exact ⟨w, q, by rw [hs, ht], hw, written, hq, rfl⟩
    · cases h
  · rintro ⟨w, q, rfl, hw, written, hq, rfl⟩
    rw [root_eq_object hw]
    exact (object_eq_ok_iff (reads_value maxDepth)).mpr ⟨q, written, rfl, hq, rfl⟩

theorem object_of_layer {n : Nat} {q : List Char} {d : Document} (h : Layer n ('{' :: q) d) :
    ∃ m written, n = m + 1 ∧ Enclosed '}' (Entry (Within m)) q written ∧
      d = .object (merged written) := by
  generalize hs : '{' :: q = s at h
  cases h with
  | scalar hscalar =>
      obtain ⟨c, o', rfl, hc⟩ := scalar_head hscalar
      obtain rfl := (List.cons.inj hs).1
      exact absurd hc (by decide)
  | array => exact absurd (List.cons.inj hs).1 (by decide)
  | object hq =>
      obtain rfl := (List.cons.inj hs).2
      exact ⟨_, _, rfl, hq, rfl⟩

theorem root_iff {q : List Char} {d : Document} :
    Root q d ↔ ∃ written, Value ('{' :: q) (.object written) ∧ depth (.object written) ≤ 257 ∧
      d = resolved (.object written) := by
  constructor
  · rintro ⟨written, hq, rfl⟩
    obtain ⟨tree, hvalue, hdepth, htree⟩ := Grammar.within_iff.mpr (.object hq)
    cases hvalue with
    | scalar hs =>
        obtain ⟨c, o', ho, hc⟩ := scalar_head hs
        obtain rfl := (List.cons.inj ho).1
        exact absurd hc (by decide)
    | object hentries => exact ⟨_, .object hentries, hdepth, htree⟩
  · rintro ⟨written, hvalue, hdepth, rfl⟩
    have hwithin : Within (maxDepth + 1) ('{' :: q) (resolved (.object written)) :=
      ⟨_, hvalue, hdepth, rfl⟩
    obtain ⟨m, entries, hm, hentries, hd⟩ := object_of_layer (Grammar.within_iff.mp hwithin)
    obtain rfl := Nat.succ.inj hm
    exact ⟨entries, hentries, hd⟩

end Reader

theorem parse_eq_ok_iff_root {text : String} {d : Document} :
    parse text = .ok d ↔
      ∃ w q r, text.toList = w ++ '{' :: (q ++ r) ∧ Blanks w ∧ Reader.Root q d := by
  rw [parse]
  constructor
  · intro h
    split at h
    · next d' r hroot =>
        cases h
        obtain ⟨w, q, hs, hw, hq⟩ := Reader.root_eq_ok_iff.mp hroot
        exact ⟨w, q, r, hs, hw, hq⟩
    · cases h
  · rintro ⟨w, q, r, hs, hw, hq⟩
    rw [Reader.root_eq_ok_iff.mpr ⟨w, q, hs, hw, hq⟩]

/-- A text is read exactly if it starts, after blanks, with an object of the grammar whose
containers nest at most 257 deep, itself included. What is read is the written tree with repeated
keys merged, and whatever follows the object does not matter. -/
theorem parse_eq_ok_iff {text : String} {d : Document} :
    parse text = .ok d ↔ ∃ (w o r : List Char) (written : List (String × Document)),
      text.toList = w ++ o ++ r ∧ Blanks w ∧ Value o (.object written) ∧
        depth (.object written) ≤ 257 ∧ d = resolved (.object written) := by
  rw [parse_eq_ok_iff_root]
  constructor
  · rintro ⟨w, q, r, hs, hw, hq⟩
    obtain ⟨written, hvalue, hdepth, hd⟩ := Reader.root_iff.mp hq
    exact ⟨w, '{' :: q, r, written, by simpa using hs, hw, hvalue, hdepth, hd⟩
  · rintro ⟨w, o, r, written, hs, hw, hvalue, hdepth, hd⟩
    obtain ⟨q, rfl⟩ : ∃ q, o = '{' :: q := by
      cases hvalue with
      | scalar hscalar => cases hscalar
      | object => exact ⟨_, rfl⟩
    exact ⟨w, q, r, by simpa using hs, hw, Reader.root_iff.mpr ⟨written, hvalue, hdepth, hd⟩⟩

end Dialogue.Document
