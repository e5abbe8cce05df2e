import Dialogue.Proofs.Document.Part

/-!
# Scalars and their places

A scalar is placed in a document by the keys and indices that lead to it. In a document whose
objects have no key twice no place comes twice, and what stands at a place is what the path leads
to.
-/

namespace Dialogue.Document

/-! ## Listing -/

/-- Places with what stands there, reached by one more step. -/
def under (segment : Segment) (placed : List (Path × Document)) : List (Path × Document) :=
  placed.map fun x ↦ (segment :: x.1, x.2)

mutual

/-- The scalars of a document with their places, in reading order. -/
def scalars : Document → List (Path × Document)
  | .object entries => entryScalars entries
  | .array items => itemScalars 0 items
  | d => [([], d)]

def entryScalars : List (String × Document) → List (Path × Document)
  | [] => []
  | (key, value) :: entries => under (.key key) value.scalars ++ entryScalars entries

def itemScalars (i : Nat) : List Document → List (Path × Document)
  | [] => []
  | item :: items => under (.index i) item.scalars ++ itemScalars (i + 1) items

end

theorem mem_under_iff {segment : Segment} {placed : List (Path × Document)} {place : Path}
    {x : Document} : (place, x) ∈ under segment placed ↔
      ∃ rest, place = segment :: rest ∧ (rest, x) ∈ placed := by
  rw [under, List.mem_map]
  constructor
  · rintro ⟨⟨rest, y⟩, hmem, heq⟩
    cases heq
    exact ⟨rest, rfl, hmem⟩
  · rintro ⟨rest, rfl, hmem⟩
    exact ⟨(rest, x), hmem, rfl⟩

theorem map_fst_under (segment : Segment) (placed : List (Path × Document)) :
    (under segment placed).map (·.1) = (placed.map (·.1)).map (segment :: ·) := by
  rw [under, List.map_map, List.map_map]
  rfl

theorem entryScalars_eq_flatMap (entries : List (String × Document)) :
    entryScalars entries = entries.flatMap fun e ↦ under (.key e.1) e.2.scalars := by
  induction entries with
  | nil => rfl
  | cons e entries ih => rw [entryScalars, ih, List.flatMap_cons]

theorem itemScalars_eq_flatMap (i : Nat) (items : List Document) :
    itemScalars i items =
      (items.zipIdx i).flatMap fun item ↦ under (.index item.2) item.1.scalars := by
  induction items generalizing i with
  | nil => rfl
  | cons item items ih => rw [itemScalars, ih, List.zipIdx_cons, List.flatMap_cons]

theorem mem_entryScalars_iff {entries : List (String × Document)} {place : Path} {x : Document} :
    (place, x) ∈ entryScalars entries ↔
      ∃ e ∈ entries, ∃ rest, place = .key e.1 :: rest ∧ (rest, x) ∈ e.2.scalars := by
  rw [entryScalars_eq_flatMap, List.mem_flatMap]
  simp only [mem_under_iff]

theorem mem_itemScalars_iff {items : List Document} {place : Path} {x : Document} :
    (place, x) ∈ itemScalars 0 items ↔
      ∃ item ∈ items.zipIdx, ∃ rest, place = .index item.2 :: rest ∧
        (rest, x) ∈ item.1.scalars := by
  rw [itemScalars_eq_flatMap, List.mem_flatMap]
  simp only [mem_under_iff]

theorem scalars_of_scalar {d : Document} (h : d.scalarText?.isSome) : d.scalars = [([], d)] := by
  fun_cases scalarText? d <;> first | rfl | cases h

theorem mem_scalars_of_scalar {d x : Document} (h : d.scalarText?.isSome) {place : Path} :
    (place, x) ∈ d.scalars ↔ place = [] ∧ x = d := by
  rw [scalars_of_scalar h, List.mem_singleton, Prod.mk.injEq]

theorem isSome_of_mem_scalars {d x : Document} {place : Path} (h : (place, x) ∈ d.scalars) :
    x.scalarText?.isSome := by
  have hscalar {d : Document} (hd : d.scalarText?.isSome) {place : Path}
      (h : (place, x) ∈ d.scalars) : x.scalarText?.isSome :=
    ((mem_scalars_of_scalar hd).mp h).2 ▸ hd
  induction d generalizing place with
  | object entries ih =>
      obtain ⟨e, he, rest, -, hx⟩ := mem_entryScalars_iff.mp h
      exact ih e he hx
  | array items ih =>
      obtain ⟨item, hitem, rest, -, hx⟩ := mem_itemScalars_iff.mp h
      exact ih item.1 (List.fst_mem_of_mem_zipIdx hitem) hx
  | bool value => cases value <;> exact hscalar rfl h
  | _ => exact hscalar rfl h

/-! ## What stands at a place -/

section Get

variable {x : Document} {place : Path}

theorem get?_object_eq_some_iff {entries : List (String × Document)}
    (h : (entries.map (·.1)).Nodup) (hx : x.scalarText?.isSome) :
    (object entries).get? place = some x ↔
      ∃ e ∈ entries, ∃ rest, place = .key e.1 :: rest ∧ e.2.get? rest = some x := by
  constructor
  · intro hget
    cases place with
    | nil =>
        obtain rfl := Option.some.inj hget
        cases hx
    | cons segment rest =>
        obtain ⟨y, hy, hrest⟩ := Option.bind_eq_some_iff.mp hget
        cases segment with
        | key name => exact ⟨(name, y), (step?_key_eq_some_iff h).mp hy, rest, rfl, hrest⟩
        | index i => cases hy
  · rintro ⟨e, he, rest, rfl, hget⟩
    rw [get?_cons, (step?_key_eq_some_iff h).mpr he]
    exact hget

theorem get?_array_eq_some_iff {items : List Document} (hx : x.scalarText?.isSome) :
    (array items).get? place = some x ↔
      ∃ item ∈ items.zipIdx, ∃ rest, place = .index item.2 :: rest ∧
        item.1.get? rest = some x := by
  constructor
  · intro hget
    cases place with
    | nil =>
        obtain rfl := Option.some.inj hget
        cases hx
    | cons segment rest =>
        obtain ⟨y, hy, hrest⟩ := Option.bind_eq_some_iff.mp hget
        cases segment with
        | key name => cases hy
        | index i => exact ⟨(y, i), List.mk_mem_zipIdx_iff_getElem?.mpr hy, rest, rfl, hrest⟩
  · rintro ⟨item, hitem, rest, rfl, hget⟩
    have hstep : (array items).step? (.index item.2) = some item.1 :=
      List.mk_mem_zipIdx_iff_getElem?.mp hitem
    rw [get?_cons, hstep]
    exact hget

/-- Nothing stands in a scalar but itself. -/
theorem get?_of_scalar {d : Document} (h : d.scalarText?.isSome) :
    d.get? place = some x ↔ place = [] ∧ x = d := by
  cases place with
  | nil => simp [eq_comm]
  | cons segment place =>
      have hstep : d.step? segment = none := by
        cases d <;> first | rfl | cases h
      simp [hstep]

end Get

/-- What is listed are the scalars that stand somewhere, each with the path that leads there. -/
theorem mem_scalars_iff {d x : Document} (h : Distinct d) {place : Path} :
    (place, x) ∈ d.scalars ↔ d.get? place = some x ∧ x.scalarText?.isSome := by
  rw [← and_iff_left_of_imp isSome_of_mem_scalars]
  refine and_congr_left fun hx ↦ ?_
  have hscalar {d : Document} (hd : d.scalarText?.isSome) {place : Path} :
      (place, x) ∈ d.scalars ↔ d.get? place = some x := by
    rw [mem_scalars_of_scalar hd, get?_of_scalar hd]
  induction d generalizing place with
  | object entries ih =>
      rw [scalars, mem_entryScalars_iff, get?_object_eq_some_iff (h entries .self) hx]
      refine exists_congr fun e ↦ and_congr_right fun he ↦ ?_
      refine exists_congr fun rest ↦ and_congr_right fun _ ↦ ?_
      exact ih e he (h.of_part (.entry he .self))
  | array items ih =>
      rw [scalars, mem_itemScalars_iff, get?_array_eq_some_iff hx]
      refine exists_congr fun item ↦ and_congr_right fun hitem ↦ ?_
      refine exists_congr fun rest ↦ and_congr_right fun _ ↦ ?_
      have hpart := List.fst_mem_of_mem_zipIdx hitem
      exact ih item.1 hpart (h.of_part (.item hpart .self))
  | bool value => cases value <;> exact hscalar rfl
  | _ => exact hscalar rfl

/-! ## No place twice -/

theorem disjoint_under {segment segment' : Segment} (h : segment ≠ segment')
    (placed placed' : List (Path × Document)) :
    List.Disjoint ((under segment placed).map (·.1)) ((under segment' placed').map (·.1)) := by
  rw [map_fst_under, map_fst_under]
  intro place hplace hplace'
  obtain ⟨rest, -, rfl⟩ := List.mem_map.mp hplace
  obtain ⟨rest', -, heq⟩ := List.mem_map.mp hplace'
  exact h (List.cons.inj heq).1.symm

theorem nodup_under {segment : Segment} {placed : List (Path × Document)}
    (h : (placed.map (·.1)).Nodup) : ((under segment placed).map (·.1)).Nodup := by
  rw [map_fst_under]
  exact h.map List.cons_injective

theorem nodup_scalars {d : Document} (h : Distinct d) : (d.scalars.map (·.1)).Nodup := by
  have hscalar {d : Document} (hd : d.scalarText?.isSome) : (d.scalars.map (·.1)).Nodup := by
    rw [scalars_of_scalar hd]
    exact List.nodup_singleton []
  induction d with
  | object entries ih =>
      rw [scalars, entryScalars_eq_flatMap, List.map_flatMap, List.nodup_flatMap]
      refine ⟨fun e he ↦ nodup_under (ih e he (h.of_part (.entry he .self))), ?_⟩
      have hkeys : entries.Pairwise fun e e' ↦ e.1 ≠ e'.1 :=
        List.pairwise_map.mp (h entries .self)
      exact hkeys.imp fun hne ↦ disjoint_under (by simpa using hne) _ _
  | array items ih =>
      rw [scalars, itemScalars_eq_flatMap, List.map_flatMap, List.nodup_flatMap]
      refine ⟨fun item hitem ↦ nodup_under ?_, ?_⟩
      · have hpart := List.fst_mem_of_mem_zipIdx hitem
        exact ih item.1 hpart (h.of_part (.item hpart .self))
      · have hindices : items.zipIdx.Pairwise fun item item' ↦ item.2 ≠ item'.2 := by
          rw [← List.pairwise_map (f := Prod.snd), List.zipIdx_map_snd]
          exact List.nodup_range'
        exact hindices.imp fun hne ↦ disjoint_under (by simpa using hne) _ _
  | bool value => cases value <;> exact hscalar rfl
  | _ => exact hscalar rfl

end Dialogue.Document
