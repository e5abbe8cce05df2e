import Dialogue.Table
import Mathlib.Data.List.Induction

/-!
# The listing of a table

A table is its listing, and listing it again gives it back: an entry whose key is beyond all others
goes to the end, so the entries of a sorted list come in their own order.
-/

namespace Dialogue.Table

variable {α : Type}

theorem ext_entries {t u : Table α} (h : t.entries = u.entries) : t = u := by
  cases t
  cases u
  simpa using h

theorem put_of_forall_lt {key : String} (value : α) {es : List (String × α)}
    (h : ∀ e ∈ es, e.1 < key) : put key value es = es ++ [(key, value)] := by
  induction es with
  | nil => rfl
  | cons e es ih =>
      obtain ⟨he, hes⟩ := List.forall_mem_cons.mp h
      have hnlt : ¬key < e.1 := fun hlt ↦ String.lt_irrefl _ (String.lt_trans he hlt)
      have hne : key ≠ e.1 := fun heq ↦ String.lt_irrefl _ (heq ▸ he)
      rw [put, if_neg hnlt, if_neg hne, ih hes, List.cons_append]

theorem entries_foldl_insert (t : Table α) {es : List (String × α)}
    (h : (t.entries ++ es).Pairwise fun a b ↦ a.1 < b.1) :
    (es.foldl (fun t e ↦ t.insert e.1 e.2) t).entries = t.entries ++ es := by
  induction es generalizing t with
  | nil => simp
  | cons e es ih =>
      have hput : (t.insert e.1 e.2).entries = t.entries ++ [e] := by
        apply put_of_forall_lt
        intro x hx
        exact (List.pairwise_append.mp h).2.2 x hx e List.mem_cons_self
      have hassoc : t.entries ++ e :: es = (t.insert e.1 e.2).entries ++ es := by
        rw [hput, List.append_assoc, List.singleton_append]
      rw [hassoc] at h
      rw [List.foldl_cons, ih _ h, hassoc]

theorem entries_ofList {es : List (String × α)} (h : es.Pairwise fun a b ↦ a.1 < b.1) :
    (ofList es).entries = es := by
  rw [ofList, entries_foldl_insert empty (by simpa using h), entries_empty, List.nil_append]

@[simp] theorem ofList_entries (t : Table α) : ofList t.entries = t :=
  ext_entries (entries_ofList t.sorted)

/-- Of several entries with one key the last is found. -/
theorem get?_ofList (es : List (String × α)) (key : String) :
    (ofList es).get? key = (es.reverse.find? (·.1 = key)).map (·.2) := by
  induction es using List.reverseRecOn with
  | nil => rfl
  | append_singleton es e ih =>
      rw [ofList, List.foldl_append, ← ofList, List.foldl_cons, List.foldl_nil, get?_insert, ih,
        List.reverse_append, List.reverse_singleton, List.singleton_append, List.find?_cons]
      by_cases h : e.1 = key <;> simp [h]

/-- Where all entries with a key agree, it does not matter which of them is found. -/
theorem get?_ofList_eq_some_iff {es : List (String × α)} {key : String} {value : α}
    (h : ∀ v v', (key, v) ∈ es → (key, v') ∈ es → v = v') :
    (ofList es).get? key = some value ↔ (key, value) ∈ es := by
  rw [get?_ofList, Option.map_eq_some_iff]
  constructor
  · rintro ⟨⟨k, v⟩, hfind, rfl⟩
    obtain rfl : k = key := by simpa using List.find?_some hfind
    exact List.mem_reverse.mp (List.mem_of_find?_eq_some hfind)
  · intro hmem
    obtain ⟨⟨k, v⟩, hfind⟩ : ∃ e, es.reverse.find? (·.1 = key) = some e := by
      rw [← Option.isSome_iff_exists, List.find?_isSome]
      exact ⟨_, List.mem_reverse.mpr hmem, by simp⟩
    obtain rfl : k = key := by simpa using List.find?_some hfind
    have hv : (k, v) ∈ es := List.mem_reverse.mp (List.mem_of_find?_eq_some hfind)
    exact ⟨_, hfind, h _ _ hv hmem⟩

theorem perm_put {key : String} (value : α) {es : List (String × α)} (h : key ∉ es.map (·.1)) :
    (put key value es).Perm ((key, value) :: es) := by
  fun_induction put key value es with
  | case1 => exact .refl _
  | case2 => exact .refl _
  | case3 e es _ heq => exact absurd (heq ▸ List.mem_cons_self) h
  | case4 e es _ _ ih =>
      have hrest : key ∉ es.map (·.1) := fun hmem ↦ h (List.mem_cons_of_mem _ hmem)
      exact ((ih hrest).cons e).trans (.swap ..)

/-- Where no key repeats, the table has all the entries that it is made of. -/
theorem perm_ofList {es : List (String × α)} (h : (es.map (·.1)).Nodup) :
    (ofList es).entries.Perm es := by
  induction es using List.reverseRecOn with
  | nil => exact .refl _
  | append_singleton es e ih =>
      rw [List.map_append, List.map_singleton] at h
      obtain ⟨hes, -, hdistinct⟩ := List.nodup_append.mp h
      have hperm : (ofList es).entries.Perm es := ih hes
      have hnew : e.1 ∉ (ofList es).entries.map (·.1) := by
        rw [(hperm.map _).mem_iff]
        exact fun hmem ↦ hdistinct _ hmem _ (List.mem_singleton_self _) rfl
      rw [ofList, List.foldl_append, ← ofList, List.foldl_cons, List.foldl_nil]
      exact (perm_put e.2 hnew).trans ((hperm.cons e).trans (List.perm_append_singleton e es).symm)

theorem nodup_keys (t : Table α) : (t.entries.map (·.1)).Nodup := by
  apply List.pairwise_map.mpr
  apply t.sorted.imp
  intro a b hab heq
  exact String.lt_irrefl _ (heq ▸ hab)

/-! ## Sameness -/

theorem contains_iff {t : Table α} {key : String} : t.contains key ↔ key ∈ t.entries.map (·.1) := by
  rw [contains, Option.isSome_iff_exists, List.mem_map]
  constructor
  · rintro ⟨value, h⟩
    exact ⟨_, get?_eq_some_iff.mp h, rfl⟩
  · rintro ⟨e, he, rfl⟩
    exact ⟨e.2, get?_eq_some_iff.mpr he⟩

/-- Tables in which the same is found are the same, however they were filled. -/
theorem ext_get? {t u : Table α} (h : ∀ key, t.get? key = u.get? key) : t = u := by
  have hmem (e : String × α) : e ∈ t.entries ↔ e ∈ u.entries := by
    rw [← get?_eq_some_iff (t := t), ← get?_eq_some_iff (t := u), h]
  have hnodup (t : Table α) : t.entries.Nodup := by
    apply t.sorted.imp
    rintro a _ hlt rfl
    exact String.lt_irrefl _ hlt
  have hperm : t.entries.Perm u.entries :=
    (List.perm_ext_iff_of_nodup (hnodup t) (hnodup u)).mpr hmem
  apply ext_entries
  refine hperm.eq_of_pairwise ?_ t.sorted u.sorted
  intro a b _ _ hab hba
  exact absurd (String.lt_trans hab hba) (String.lt_irrefl _)

end Dialogue.Table
