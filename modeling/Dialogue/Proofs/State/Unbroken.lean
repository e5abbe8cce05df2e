import Dialogue.Proofs.State.Restoring

/-!
# The text of a state is one line

Strings are escaped, so that no character of an id or a name ends the line, and the braces at the
ends are no white space.
-/

namespace Dialogue.State

open Text (Quoted.escape Quoted.write)

/-- A text that ends no line. -/
def Unbroken (s : List Char) : Prop := ∀ c ∈ s, c ≠ '\n' ∧ c ≠ '\r'

theorem unbroken_append {s t : List Char} : Unbroken (s ++ t) ↔ Unbroken s ∧ Unbroken t :=
  List.forall_mem_append

theorem unbroken_cons {c : Char} {s : List Char} :
    Unbroken (c :: s) ↔ (c ≠ '\n' ∧ c ≠ '\r') ∧ Unbroken s :=
  List.forall_mem_cons

theorem unbroken_escape (c : Char) : Unbroken (Quoted.escape c) := by
  fun_cases Quoted.escape c with
  | case8 c _ _ hlf hcr _ _ _ => exact List.forall_mem_singleton.mpr ⟨hlf, hcr⟩
  | _ => simp [Unbroken]

theorem unbroken_write (text : String) : Unbroken (Quoted.write text).toList := by
  have hinside : Unbroken (text.toList.flatMap Quoted.escape) := by
    intro c hc
    obtain ⟨d, -, hd⟩ := List.mem_flatMap.mp hc
    exact unbroken_escape d c hd
  have hquote : Unbroken ['"'] := by simp [Unbroken]
  rw [Document.toList_write, unbroken_cons, unbroken_append]
  exact ⟨by decide, hinside, hquote⟩

theorem unbroken_ofInt (v : Int32) : Unbroken (Text.Decimal.ofInt v).toList := by
  have hdigits : Unbroken (Nat.toDigits 10 v.toInt.natAbs) := by
    intro c hc
    have hdigit := Text.Decimal.isDigit_of_mem_digits hc
    constructor <;> rintro rfl <;> exact absurd hdigit (by decide)
  rw [Text.Decimal.toList_ofInt, unbroken_append]
  refine ⟨?_, hdigits⟩
  split <;> simp [Unbroken]

theorem unbroken_intercalate {texts : List String} (h : ∀ t ∈ texts, Unbroken t.toList) :
    Unbroken (",".intercalate texts).toList := by
  induction texts with
  | nil => simp [Unbroken]
  | cons t texts ih =>
      obtain ⟨ht, htexts⟩ := List.forall_mem_cons.mp h
      cases texts with
      | nil => rwa [String.intercalate_singleton]
      | cons u texts =>
          rw [String.intercalate_cons_cons, String.toList_append, String.toList_append,
            unbroken_append, unbroken_append]
          exact ⟨⟨ht, by simp [Unbroken]⟩, ih htexts⟩

theorem unbroken_save (s : State) : Unbroken s.save.toList := by
  have hvalues : Unbroken (",".intercalate (s.values.entries.map saveVariable)).toList := by
    refine unbroken_intercalate fun t ht ↦ ?_
    obtain ⟨e, -, rfl⟩ := List.mem_map.mp ht
    rw [saveVariable, String.toList_append, String.toList_append, unbroken_append, unbroken_append]
    exact ⟨⟨unbroken_write e.1, by simp [Unbroken]⟩, unbroken_ofInt e.2⟩
  have hhistory : Unbroken (",".intercalate (s.history.map Quoted.write)).toList := by
    refine unbroken_intercalate fun t ht ↦ ?_
    obtain ⟨id, -, rfl⟩ := List.mem_map.mp ht
    exact unbroken_write id
  unfold save
  simp only [String.toList_append, unbroken_append]
  refine ⟨⟨⟨⟨⟨⟨?_, unbroken_write s.current⟩, ?_⟩, hvalues⟩, ?_⟩, hhistory⟩, ?_⟩ <;> simp [Unbroken]

theorem head?_save (s : State) : s.save.toList.head? = some '{' := by
  rw [save_eq]
  simp [String.toList_append]

theorem getLast?_save (s : State) : s.save.toList.getLast? = some '}' := by
  rw [save_eq, String.toList_append, List.getLast?_append]
  rfl

end Dialogue.State
