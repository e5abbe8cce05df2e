import Mathlib.Data.List.Induction
import Mathlib.Data.List.Nodup

/-!
# Lists with distinct keys

Nodes are listed with their ids and entries with their names. Where no key repeats, what is found
under a key is the one element that has it. Where keys do repeat, each is kept where it stands
first.
-/

namespace Dialogue

variable {α κ : Type} [DecidableEq κ] {key : α → κ} {xs : List α}

theorem find?_key_eq_some_iff (h : (xs.map key).Nodup) {k : κ} {x : α} :
    xs.find? (key · = k) = some x ↔ x ∈ xs ∧ key x = k := by
  constructor
  · intro hfind
    exact ⟨List.mem_of_find?_eq_some hfind, by simpa using List.find?_some hfind⟩
  · rintro ⟨hx, rfl⟩
    obtain ⟨y, hy⟩ : ∃ y, xs.find? (key · = key x) = some y := by
      rw [← Option.isSome_iff_exists, List.find?_isSome]
      exact ⟨x, hx, by simp⟩
    have hkey : key y = key x := by simpa using List.find?_some hy
    rw [hy, List.inj_on_of_nodup_map h (List.mem_of_find?_eq_some hy) hx hkey]

/-- No other element has the key of an element. -/
theorem filter_key_eq_singleton (h : (xs.map key).Nodup) {x : α} (hx : x ∈ xs) :
    xs.filter (key · = key x) = [x] := by
  obtain ⟨before, after, rfl⟩ := List.append_of_mem hx
  rw [List.map_append, List.map_cons, List.nodup_middle, List.nodup_cons, ← List.map_append] at h
  have hnone : ∀ y ∈ before ++ after, ¬key y = key x :=
    fun y hy heq ↦ h.1 (heq ▸ List.mem_map_of_mem hy)
  obtain ⟨hbefore, hafter⟩ := List.forall_mem_append.mp hnone
  have hbefore' : before.filter (key · = key x) = [] :=
    List.filter_eq_nil_iff.mpr (by simpa using hbefore)
  have hafter' : after.filter (key · = key x) = [] :=
    List.filter_eq_nil_iff.mpr (by simpa using hafter)
  rw [List.filter_append, List.filter_cons_of_pos (by simp), hbefore', hafter']
  rfl

/-- What is found from the end is the last element with the property. -/
theorem find?_reverse_eq_some_iff {p : α → Bool} {x : α} :
    xs.reverse.find? p = some x ↔
      p x ∧ ∃ before after, xs = before ++ x :: after ∧ ∀ y ∈ after, ¬p y := by
  rw [List.find?_eq_some_iff_append]
  refine and_congr_right fun _ ↦ ?_
  constructor
  · rintro ⟨after, before, hsplit, hafter⟩
    refine ⟨before.reverse, after.reverse, ?_, by simpa using hafter⟩
    rw [← List.reverse_reverse xs, hsplit]
    simp
  · rintro ⟨before, after, rfl, hafter⟩
    exact ⟨after.reverse, before.reverse, by simp, by simpa using hafter⟩

/-! ## First appearances -/

theorem eraseDups_concat (keys : List κ) (k : κ) :
    (keys ++ [k]).eraseDups = if k ∈ keys then keys.eraseDups else keys.eraseDups ++ [k] := by
  rw [List.eraseDups_append, List.removeAll]
  by_cases h : k ∈ keys <;> simp [h, List.eraseDups_cons]

theorem nodup_eraseDups (keys : List κ) : keys.eraseDups.Nodup := by
  induction keys using List.reverseRecOn with
  | nil => simp
  | append_singleton keys k ih =>
      rw [eraseDups_concat]
      split
      · exact ih
      · next h =>
          refine List.nodup_append.mpr ⟨ih, by simp, fun k hk k' hk' ↦ ?_⟩
          rintro rfl
          rw [List.mem_singleton.mp hk', List.mem_eraseDups] at hk
          exact h hk

theorem pairwise_idxOf_eraseDups (keys : List κ) :
    keys.eraseDups.Pairwise fun k k' ↦ keys.idxOf k < keys.idxOf k' := by
  induction keys using List.reverseRecOn with
  | nil => simp
  | append_singleton keys k ih =>
      have hkept : keys.eraseDups.Pairwise fun k₁ k₂ ↦
          (keys ++ [k]).idxOf k₁ < (keys ++ [k]).idxOf k₂ := by
        refine ih.imp_of_mem fun h₁ h₂ hlt ↦ ?_
        rw [List.mem_eraseDups] at h₁ h₂
        rwa [List.idxOf_append_of_mem h₁, List.idxOf_append_of_mem h₂]
      rw [eraseDups_concat]
      split
      · exact hkept
      · next hnew =>
          refine List.pairwise_append.mpr ⟨hkept, List.pairwise_singleton .., ?_⟩
          intro k₁ h₁ k₂ h₂
          obtain rfl := List.mem_singleton.mp h₂
          rw [List.mem_eraseDups] at h₁
          rw [List.idxOf_append_of_mem h₁, List.idxOf_append_of_notMem hnew]
          exact Nat.lt_add_right _ (List.idxOf_lt_length_of_mem h₁)

end Dialogue
