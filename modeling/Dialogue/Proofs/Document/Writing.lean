import Dialogue.Proofs.Document.Parsing
import Dialogue.Proofs.Text.Decimal

/-!
# Writing documents

Texts that are put together from quoted strings, decimal integers and lists between brackets are
phrases of the grammar. So what such a text reads as is known from its parts, and the readers need
not be looked at again.
-/

namespace Dialogue

/-! ## Lists without blanks -/

namespace Text

variable {α β : Type} {P : List Char → α → Prop} {write : β → String} {f : β → α}

theorem Spaced.bare {s : List Char} {x : α} (h : P s x) : Spaced P s x := by
  simpa using Spaced.mk blanks_nil h blanks_nil

theorem separated_intercalate {b : β} {bs : List β}
    (h : ∀ x ∈ b :: bs, P (write x).toList (f x)) :
    Separated (Spaced P) (",".intercalate ((b :: bs).map write)).toList ((b :: bs).map f) := by
  induction bs generalizing b with
  | nil =>
      have hb := Spaced.bare (h b (by simp))
      simpa using Separated.one hb
  | cons b' bs ih =>
      have hb := Spaced.bare (h b (by simp))
      have hbs := ih fun x hx ↦ h x (List.mem_cons_of_mem b hx)
      simpa using Separated.cons hb hbs

/-- Phrases with commas between them, up to the closing bracket. -/
theorem enclosed_intercalate {close : Char} {bs : List β}
    (h : ∀ b ∈ bs, P (write b).toList (f b)) :
    Enclosed close P ((",".intercalate (bs.map write)).toList ++ [close]) (bs.map f) := by
  cases bs with
  | nil => exact .empty blanks_nil
  | cons b bs => exact .elements (separated_intercalate h)

end Text

namespace Document

open Text (Quoted.escape Quoted.write Quoted.scan_flatMap_escape)
open Grammar (Chars Digits Number Scalar Entry Value)

/-! ## Tokens -/

/-- What is escaped is read back, by the readers and so by the grammar. -/
theorem chars_escape (text : List Char) : Chars (text.flatMap Quoted.escape) text := by
  obtain ⟨k, t, hs, hk, ht⟩ := chars_of_scan (Quoted.scan_flatMap_escape [] text [])
  obtain rfl := List.append_cancel_right hs
  obtain rfl : text = t := by simpa using ht
  exact hk

theorem toList_write (text : String) :
    (Quoted.write text).toList = '"' :: (text.toList.flatMap Quoted.escape ++ ['"']) := by
  simp [Quoted.write]

theorem scalar_write (text : String) : Scalar (Quoted.write text).toList (.string text) := by
  have h := Scalar.string (chars_escape text.toList)
  rw [String.ofList_toList] at h
  rw [toList_write]
  exact h

theorem number_ofInt (v : Int32) : Number (Text.Decimal.ofInt v).toList := by
  have hdigits : Digits (Nat.toDigits 10 v.toInt.natAbs) :=
    fun c hc ↦ Text.Decimal.isDigit_of_mem_digits hc
  have hsign : (if v.toInt < 0 then ['-'] else []) ∈ [[], ['-']] := by
    split <;> simp
  have h := Number.mk hsign Nat.toDigits_ne_nil hdigits .none .none
  rw [Text.Decimal.toList_ofInt]
  simpa using h

theorem scalar_ofInt (v : Int32) :
    Scalar (Text.Decimal.ofInt v).toList (.number (Text.Decimal.ofInt v)) := by
  have h := Scalar.number (number_ofInt v)
  rw [String.ofList_toList] at h
  exact h

theorem entry_write {P : List Char → Document → Prop} (name : String) {v : List Char}
    {d : Document} (h : P v d) : Entry P ((Quoted.write name).toList ++ ':' :: v) (name, d) := by
  have hentry := Entry.mk (chars_escape name.toList) Text.blanks_nil Text.blanks_nil h
  rw [String.ofList_toList] at hentry
  simpa [toList_write] using hentry

/-! ## Distinct keys

Where no key repeats, there is nothing to merge. -/

theorem put_of_not_mem {key : String} (value : Document) {entries : List (String × Document)}
    (h : key ∉ entries.map (·.1)) : put key value entries = entries ++ [(key, value)] := by
  induction entries with
  | nil => rfl
  | cons e entries ih =>
      rw [List.map_cons, List.mem_cons, not_or] at h
      rw [put, if_neg (Ne.symm h.1), ih h.2, List.cons_append]

theorem merged_of_nodup {written : List (String × Document)}
    (h : (written.map (·.1)).Nodup) : merged written = written := by
  rw [← collapse_eq_merged]
  induction written using List.reverseRecOn with
  | nil => rfl
  | append_singleton written e ih =>
      rw [List.map_append, List.map_singleton] at h
      obtain ⟨hwritten, -, hne⟩ := List.nodup_append.mp h
      have hmem : e.1 ∉ written.map (·.1) := fun hmem ↦ hne _ hmem _ List.mem_cons_self rfl
      rw [collapse, List.foldl_append, ← collapse, ih hwritten]
      exact put_of_not_mem e.2 hmem

/-! ## Documents -/

/-- A text that is an object of the grammar as a whole is read as its tree. -/
theorem parse_of_value {text : String} {written : List (String × Document)}
    (h : Value text.toList (.object written)) (hdepth : depth (.object written) ≤ 257) :
    parse text = .ok (resolved (.object written)) := by
  generalize hs : text.toList = s at h
  cases h with
  | scalar hscalar => cases hscalar
  | @object q _ hq =>
      have hroot : Reader.Root q (resolved (.object written)) :=
        Reader.root_iff.mpr ⟨written, .object hq, hdepth, rfl⟩
      exact parse_eq_ok_iff_root.mpr ⟨[], q, [], by simpa using hs, Text.blanks_nil, hroot⟩

end Document

end Dialogue
