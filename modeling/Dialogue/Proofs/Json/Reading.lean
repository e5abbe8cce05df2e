import Dialogue.Json.Reader
import Dialogue.Proofs.Text.Decimal
import Dialogue.Proofs.Text.Leaves

/-!
# What a JSON text consists of

Inside a string a control character has to be escaped, and between two tokens only blanks may
stand. So of the characters below U+0020 a text that is read as a value contains none but tabs, line
feeds and carriage returns. Each reader is followed by what it takes of a text.
-/

namespace Dialogue.Json

open Text (Leaves isBlank leaves_of_skipBlanks leaves_skipBlanks skipBlanks)
open Text.Reader (Takes)

/-- The characters that may stand in a JSON text. -/
def Allowed (c : Char) : Prop := isBlank c ∨ 0x20 ≤ c.toNat

theorem allowed_of_isBlank (c : Char) (h : isBlank c) : Allowed c := .inl h

theorem allowed_of_isDigit (c : Char) (h : c.isDigit) : Allowed c := by
  obtain ⟨d, hd, rfl⟩ := Text.Decimal.exists_digitChar h
  have hchar : ∀ d < 10, 0x20 ≤ (Nat.digitChar d).toNat := by decide
  exact .inr (hchar d hd)

theorem allowed_of_value? {c : Char} {n : Nat} (h : Text.Hex.value? c = some n) : Allowed c := by
  rw [Text.Hex.value?] at h
  split at h
  · next hdigit => exact allowed_of_isDigit c hdigit
  · right
    simp only [Char.le_def, UInt32.le_iff_toNat_le] at h
    split at h
    · next hlower => exact Nat.le_trans (by decide) hlower.1
    · split at h
      · next hupper => exact Nat.le_trans (by decide) hupper.1
      · cases h

/-- One of the characters that the grammar itself names. -/
theorem leaves_mark {c : Char} {s r : List Char} (h : Leaves Allowed s r)
    (hc : 0x20 ≤ c.toNat := by decide) : Leaves Allowed (c :: s) r :=
  .cons (.inr hc) h

namespace Reader

/-! ## Strings -/

theorem allowed_of_hex4? {a b c d : Char} {n : Nat} (h : hex4? a b c d = some n) :
    ∀ x ∈ [a, b, c, d], Allowed x := by
  simp only [hex4?, bind, Option.bind_eq_some_iff] at h
  obtain ⟨_, ha, _, hb, _, hc, _, hd, -⟩ := h
  simp [allowed_of_value? ha, allowed_of_value? hb, allowed_of_value? hc, allowed_of_value? hd]

theorem allowed_of_unescape? {c d : Char} (h : unescape? c = some d) : Allowed c := by
  fun_cases unescape? c with
  | case9 => simp_all [unescape?]
  | _ => exact .inr (by decide)

theorem takes_codePoints (seen : List Nat) : Takes Allowed (codePoints seen) := by
  intro s r ns h
  fun_induction codePoints seen s with
  | case1 =>
      cases h
      exact leaves_mark (.refl r)
  | case2 seen a b c d s n hn ih =>
      have hdigits := Leaves.append (allowed_of_hex4? hn) s
      exact leaves_mark (leaves_mark (hdigits.trans (ih h)))
  | case4 seen c s _ d hd ih => exact leaves_mark (.cons (allowed_of_unescape? hd) (ih h))
  -- Only here a character stands for itself, and the reader looks at it.
  | case7 seen c s _ _ _ hc ih => exact .cons (.inr (Nat.le_of_not_lt hc)) (ih h)
  | _ => cases h

theorem takes_string : Takes Allowed string := (takes_codePoints []).as _

/-! ## Numbers -/

theorem leaves_of_digits? {taken s t r : List Char} (h : digits? taken s = some (t, r)) :
    Leaves Allowed s r := by
  rw [digits?, Text.Decimal.splitDigits] at h
  split at h
  · cases h
  · next hsplit =>
      cases h
      obtain ⟨-, rfl⟩ := Prod.mk.inj hsplit
      exact Text.leaves_takeWhile allowed_of_isDigit s

theorem leaves_of_whole? {s t r : List Char} (h : whole? s = some (t, r)) :
    Leaves Allowed s r := by
  rw [whole?.eq_def] at h
  split at h
  · cases h
    exact leaves_mark (leaves_mark (.refl r))
  · exact leaves_mark (leaves_of_digits? h)
  · cases h
    exact leaves_mark (.refl r)
  · exact leaves_of_digits? h

theorem leaves_of_fraction? {taken s t r : List Char} (h : fraction? taken s = some (t, r)) :
    Leaves Allowed s r := by
  rw [fraction?.eq_def] at h
  split at h
  · exact leaves_mark (leaves_of_digits? h)
  · cases h
    exact .refl _

theorem leaves_of_exponent? {taken s t r : List Char} (h : exponent? taken s = some (t, r)) :
    Leaves Allowed s r := by
  rw [exponent?.eq_def] at h
  split at h
  · next c s =>
      split at h
      · next he =>
          have hc : 0x20 ≤ c.toNat := by rcases he with rfl | rfl <;> decide
          split at h
          · exact leaves_mark (leaves_mark (leaves_of_digits? h)) hc
          · exact leaves_mark (leaves_mark (leaves_of_digits? h)) hc
          · exact leaves_mark (leaves_of_digits? h) hc
      · cases h
        exact .refl _
  · cases h
    exact .refl _

theorem takes_number : Takes Allowed number := by
  intro s r j h
  rw [number] at h
  dsimp only at h
  split at h
  · next text r' hsplit =>
      cases h
      simp only [bind, Option.bind_eq_some_iff, Prod.exists] at hsplit
      obtain ⟨_, _, hwhole, _, _, hfraction, hexponent⟩ := hsplit
      exact (leaves_of_whole? hwhole).trans
        ((leaves_of_fraction? hfraction).trans (leaves_of_exponent? hexponent))
  · cases h

/-! ## Values -/

theorem takes_scalar : Takes Allowed scalar := by
  intro s r j h
  rw [scalar.eq_def] at h
  split at h
  · exact leaves_mark (takes_string.as _ h)
  · cases h
    exact leaves_mark (leaves_mark (leaves_mark (leaves_mark (.refl r))))
  · cases h
    exact leaves_mark (leaves_mark (leaves_mark (leaves_mark (leaves_mark (.refl r)))))
  · cases h
    exact leaves_mark (leaves_mark (leaves_mark (leaves_mark (.refl r))))
  · exact takes_number h

theorem takes_member {value : Text.Reader Unit Json} (hvalue : Takes Allowed value) :
    Takes Allowed (member value) := by
  intro s r m h
  rw [member] at h
  split at h
  · next t hs =>
      refine leaves_of_skipBlanks allowed_of_isBlank hs (leaves_mark ?_)
      split at h
      · cases h
      · next name t' hname =>
          refine (takes_string hname).trans ?_
          split at h
          · next u ht' =>
              exact leaves_of_skipBlanks allowed_of_isBlank ht' (leaves_mark (hvalue.as _ h))
          · cases h
  · cases h

theorem takes_value (room : Nat) : Takes Allowed (value room) := by
  have hcomma : Allowed ',' := .inr (by decide)
  have hbrace : Allowed '}' := .inr (by decide)
  have hbracket : Allowed ']' := .inr (by decide)
  induction room with
  | zero =>
      intro s r j h
      rw [value] at h
      exact leaves_of_skipBlanks allowed_of_isBlank rfl (takes_scalar h)
  | succ room ih =>
      have hmembers := (takes_member ih).enclosed (fun _ ↦ ()) allowed_of_isBlank hbrace hcomma
      have hitems := ih.enclosed (fun _ ↦ ()) allowed_of_isBlank hbracket hcomma
      intro s r j h
      rw [value] at h
      refine leaves_of_skipBlanks allowed_of_isBlank rfl ?_
      split at h
      · next t hs =>
          rw [hs]
          exact leaves_mark (hmembers.as _ h)
      · next t hs =>
          rw [hs]
          exact leaves_mark (hitems.as _ h)
      · exact takes_scalar h

end Reader

/-- A text with a control character that is no blank denotes no value. -/
theorem allowed_of_parse? {text : String} {j : Json} (h : parse? text = some j) :
    ∀ c ∈ text.toList, Allowed c := by
  rw [parse?] at h
  split at h
  · next v r hvalue =>
      split at h
      · next hr =>
          have hend := leaves_of_skipBlanks allowed_of_isBlank hr (.refl [])
          exact ((Reader.takes_value _ hvalue).trans hend).forall fun _ hc ↦ nomatch hc
      · cases h
  · cases h

end Dialogue.Json
