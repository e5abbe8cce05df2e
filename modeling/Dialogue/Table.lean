/-! # Tables

Finite maps from texts, listed in increasing order of their keys. The order of texts is that of
their code points, which is also the order of their bytes in UTF-8. A map has one listing, so equal
maps are equal tables. -/

namespace Dialogue

structure Table (α : Type) where
  entries : List (String × α) := []
  sorted : entries.Pairwise (fun a b => a.1 < b.1) := by simp
deriving DecidableEq, Repr

namespace Table

variable {α : Type}

/-- Puts an entry at its place in a sorted list, instead of the one with the same key if any. -/
def put (key : String) (value : α) : List (String × α) → List (String × α)
  | [] => [(key, value)]
  | e :: es =>
      if key < e.1 then (key, value) :: e :: es
      else if key = e.1 then (key, value) :: es
      else e :: put key value es

theorem mem_put {key : String} {value : α} {es : List (String × α)} {x : String × α}
    (h : x ∈ put key value es) : x = (key, value) ∨ x ∈ es := by
  fun_induction put key value es <;> grind

theorem pairwise_put {key : String} {value : α} {es : List (String × α)}
    (h : es.Pairwise (fun a b => a.1 < b.1)) :
    (put key value es).Pairwise (fun a b => a.1 < b.1) := by
  fun_induction put key value es with
  | case1 => simp
  | case2 e es hlt =>
      refine List.pairwise_cons.2 ⟨fun x hx => ?_, h⟩
      rcases List.mem_cons.1 hx with rfl | hx
      · exact hlt
      · exact String.lt_trans hlt (List.rel_of_pairwise_cons h hx)
  | case3 e es _ heq =>
      refine List.pairwise_cons.2 ⟨fun x hx => ?_, h.of_cons⟩
      simpa [heq] using List.rel_of_pairwise_cons h hx
  | case4 e es hlt hne ih =>
      refine List.pairwise_cons.2 ⟨fun x hx => ?_, ih h.of_cons⟩
      rcases mem_put hx with rfl | hx
      · exact Std.lt_of_le_of_ne (Std.not_lt.1 hlt) (Ne.symm hne)
      · exact List.rel_of_pairwise_cons h hx

theorem find?_put (key k : String) (value : α) (es : List (String × α)) :
    (put key value es).find? (·.1 = k) =
      if key = k then some (key, value) else es.find? (·.1 = k) := by
  fun_induction put key value es with
  | case1 => by_cases h : key = k <;> simp [h]
  | case2 e es _ => by_cases h : key = k <;> simp [h]
  | case3 e es _ he => by_cases h : key = k <;> simp [he ▸ h, h]
  | case4 e es _ hne ih =>
      rw [List.find?_cons, ih, List.find?_cons]
      by_cases he : e.1 = k
      · simp [he, show key ≠ k from he ▸ hne]
      · simp [he]

theorem find?_eq_some_of_mem {es : List (String × α)} (hs : es.Pairwise (fun a b => a.1 < b.1))
    {e : String × α} (hm : e ∈ es) : es.find? (·.1 = e.1) = some e := by
  induction es with
  | nil => simp at hm
  | cons x es ih =>
      rcases List.mem_cons.1 hm with rfl | hm
      · simp
      · have hlt := List.rel_of_pairwise_cons hs hm
        rw [List.find?_cons_of_neg (by simpa using fun h => String.lt_irrefl _ (h ▸ hlt))]
        exact ih hs.of_cons hm

def empty : Table α := {}

instance : Inhabited (Table α) := ⟨empty⟩

def insert (t : Table α) (key : String) (value : α) : Table α :=
  ⟨put key value t.entries, pairwise_put t.sorted⟩

def get? (t : Table α) (key : String) : Option α := (t.entries.find? (·.1 = key)).map (·.2)

def contains (t : Table α) (key : String) : Bool := (t.get? key).isSome

/-- The table of a list of entries, where the last of several with one key wins. -/
def ofList (es : List (String × α)) : Table α :=
  es.foldl (fun t e => t.insert e.1 e.2) empty

@[simp] theorem entries_empty : (empty : Table α).entries = [] := rfl
@[simp] theorem get?_empty (key : String) : (empty : Table α).get? key = none := rfl

@[simp] theorem get?_insert (t : Table α) (key k : String) (value : α) :
    (t.insert key value).get? k = if key = k then some value else t.get? k := by
  rw [get?, insert, find?_put]
  split <;> rfl

theorem get?_eq_some_iff {t : Table α} {key : String} {value : α} :
    t.get? key = some value ↔ (key, value) ∈ t.entries := by
  rw [get?, Option.map_eq_some_iff]
  constructor
  · rintro ⟨e, he, rfl⟩
    have hk : e.1 = key := by simpa using List.find?_some he
    exact hk ▸ List.mem_of_find?_eq_some he
  · exact fun hm => ⟨_, find?_eq_some_of_mem t.sorted hm, rfl⟩

end Table

end Dialogue
