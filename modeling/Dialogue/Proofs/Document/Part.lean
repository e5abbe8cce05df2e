import Dialogue.Document.Path
import Dialogue.Proofs.Document.Parsing
import Dialogue.Proofs.Keyed
import Mathlib.Data.List.TakeWhile

/-!
# Parts of documents

The documents that stand in a document at any depth. In a document that is read no object has a key
twice, so each of its parts is what stands at some path.
-/

namespace Dialogue.Document

/-- Induction on documents, where a container may use what holds of its entries or items. -/
@[elab_as_elim, induction_eliminator]
theorem ind {motive : Document → Prop}
    (object : ∀ entries, (∀ e ∈ entries, motive e.2) → motive (.object entries))
    (array : ∀ items, (∀ item ∈ items, motive item) → motive (.array items))
    (string : ∀ text, motive (.string text)) (number : ∀ text, motive (.number text))
    (bool : ∀ value, motive (.bool value)) (null : motive .null) (d : Document) : motive d :=
  @Document.rec motive (fun entries ↦ ∀ e ∈ entries, motive e.2)
    (fun items ↦ ∀ item ∈ items, motive item) (fun e ↦ motive e.2)
    object array string number bool null (fun _ h ↦ nomatch h)
    (fun _ _ he hentries ↦ List.forall_mem_cons.mpr ⟨he, hentries⟩) (fun _ h ↦ nomatch h)
    (fun _ _ hitem hitems ↦ List.forall_mem_cons.mpr ⟨hitem, hitems⟩) (fun _ _ h ↦ h) d

/-- `Part x d` says that `x` is `d` or stands in it at some depth. -/
inductive Part (x : Document) : Document → Prop
  | self : Part x x
  | entry {entries : List (String × Document)} {e : String × Document} :
      e ∈ entries → Part x e.2 → Part x (.object entries)
  | item {items : List Document} {item : Document} :
      item ∈ items → Part x item → Part x (.array items)

section Cases

variable {x : Document}

@[simp] theorem part_object_iff {entries : List (String × Document)} :
    Part x (.object entries) ↔ x = .object entries ∨ ∃ e ∈ entries, Part x e.2 := by
  constructor
  · intro h
    cases h with
    | self => exact .inl rfl
    | entry he h => exact .inr ⟨_, he, h⟩
  · rintro (rfl | ⟨e, he, h⟩)
    · exact .self
    · exact .entry he h

@[simp] theorem part_array_iff {items : List Document} :
    Part x (.array items) ↔ x = .array items ∨ ∃ item ∈ items, Part x item := by
  constructor
  · intro h
    cases h with
    | self => exact .inl rfl
    | item hitem h => exact .inr ⟨_, hitem, h⟩
  · rintro (rfl | ⟨item, hitem, h⟩)
    · exact .self
    · exact .item hitem h

/-- Nothing stands in a scalar but itself. -/
theorem part_iff_of_scalar {d : Document} (hd : d.scalarText?.isSome) : Part x d ↔ x = d := by
  constructor
  · intro h
    cases h with
    | self => rfl
    | entry => cases hd
    | item => cases hd
  · rintro rfl
    exact .self

end Cases

theorem Part.trans {x y d : Document} (h : Part x y) (h' : Part y d) : Part x d := by
  induction h' with
  | self => exact h
  | entry he _ ih => exact .entry he ih
  | item hitem _ ih => exact .item hitem ih

/-! ## Leaves -/

theorem entriesHaveLeaves_iff {entries : List (String × Document)} :
    entriesHaveLeaves entries ↔ ∃ e ∈ entries, e.2.hasLeaves := by
  induction entries with
  | nil => simp [entriesHaveLeaves]
  | cons e entries ih => simp [entriesHaveLeaves, ih]

theorem itemsHaveLeaves_iff {items : List Document} :
    itemsHaveLeaves items ↔ ∃ item ∈ items, item.hasLeaves := by
  induction items with
  | nil => simp [itemsHaveLeaves]
  | cons item items ih => simp [itemsHaveLeaves, ih]

/-- Some part of the document is a scalar. -/
def HoldsScalar (d : Document) : Prop := ∃ x, Part x d ∧ x.scalarText?.isSome

theorem holdsScalar_object_iff {entries : List (String × Document)} :
    (object entries).HoldsScalar ↔ ∃ e ∈ entries, e.2.HoldsScalar := by
  constructor
  · rintro ⟨x, hx, hscalar⟩
    rcases part_object_iff.mp hx with rfl | ⟨e, he, hx⟩
    · cases hscalar
    · exact ⟨e, he, x, hx, hscalar⟩
  · rintro ⟨e, he, x, hx, hscalar⟩
    exact ⟨x, .entry he hx, hscalar⟩

theorem holdsScalar_array_iff {items : List Document} :
    (array items).HoldsScalar ↔ ∃ item ∈ items, item.HoldsScalar := by
  constructor
  · rintro ⟨x, hx, hscalar⟩
    rcases part_array_iff.mp hx with rfl | ⟨item, hitem, hx⟩
    · cases hscalar
    · exact ⟨item, hitem, x, hx, hscalar⟩
  · rintro ⟨item, hitem, x, hx, hscalar⟩
    exact ⟨x, .item hitem hx, hscalar⟩

theorem hasLeaves_iff {d : Document} : d.hasLeaves ↔ d.HoldsScalar := by
  induction d with
  | object entries ih =>
      rw [hasLeaves, entriesHaveLeaves_iff, holdsScalar_object_iff]
      exact exists_congr fun e ↦ and_congr_right fun he ↦ ih e he
  | array items ih =>
      rw [hasLeaves, itemsHaveLeaves_iff, holdsScalar_array_iff]
      exact exists_congr fun item ↦ and_congr_right fun hitem ↦ ih item hitem
  | bool value => cases value <;> exact iff_of_true rfl ⟨_, .self, rfl⟩
  | _ => exact iff_of_true rfl ⟨_, .self, rfl⟩

/-! ## Items up to the last leaf -/

/-- The list is `items` up to the last item that holds a scalar. -/
structure UpToScalar (items kept : List Document) : Prop where
  exists_rest : ∃ rest, items = kept ++ rest ∧ ∀ item ∈ rest, ¬item.HoldsScalar
  last : ∀ item ∈ kept.getLast?, item.HoldsScalar

theorem upToScalar_itemsOf (items : List Document) :
    UpToScalar items (itemsOf (some (.array items))) where
  exists_rest := by
    refine ⟨(items.reverse.takeWhile (!·.hasLeaves)).reverse, ?_, ?_⟩
    · rw [itemsOf, ← List.reverse_append, List.takeWhile_append_dropWhile, List.reverse_reverse]
    · intro item hitem
      rw [← hasLeaves_iff]
      simpa using List.mem_takeWhile_imp (List.mem_reverse.mp hitem)
  last := by
    intro item hitem
    rw [itemsOf, List.getLast?_reverse] at hitem
    have hhead := List.head?_dropWhile_not (!·.hasLeaves) items.reverse
    rw [Option.mem_def.mp hitem] at hhead
    rw [← hasLeaves_iff]
    simpa using hhead

/-- Only an array has items. -/
theorem itemsOf_eq_nil {found : Option Document} (h : ∀ items, found ≠ some (.array items)) :
    itemsOf found = [] := by
  rw [itemsOf.eq_def]
  split
  · next items => exact absurd rfl (h items)
  · rfl

theorem exists_array_of_itemsOf {found : Option Document} {i : Nat} {item : Document}
    (h : (itemsOf found)[i]? = some item) :
    ∃ items, found = some (.array items) ∧ items[i]? = some item := by
  by_cases harray : ∃ items, found = some (.array items)
  · obtain ⟨items, rfl⟩ := harray
    obtain ⟨hi, -⟩ := List.getElem?_eq_some_iff.mp h
    obtain ⟨rest, hrest, -⟩ := (upToScalar_itemsOf items).exists_rest
    refine ⟨items, rfl, ?_⟩
    rw [hrest, List.getElem?_append_left hi]
    exact h
  · rw [itemsOf_eq_nil (not_exists.mp harray)] at h
    cases h

theorem UpToScalar.lt_of_getElem? {items kept : List Document} (h : UpToScalar items kept) {i : Nat}
    {item : Document} (hi : items[i]? = some item) (hitem : item.HoldsScalar) :
    i < kept.length := by
  obtain ⟨rest, rfl, hrest⟩ := h.exists_rest
  by_contra hle
  rw [List.getElem?_append_right (Nat.le_of_not_lt hle)] at hi
  exact hrest item (List.mem_of_getElem? hi) hitem

/-! ## Distinct keys -/

/-- No object in the document has a key twice. -/
def Distinct (d : Document) : Prop :=
  ∀ entries, Part (.object entries) d → (entries.map (·.1)).Nodup

theorem Distinct.of_part {x d : Document} (h : Distinct d) (hx : Part x d) : Distinct x :=
  fun entries hentries ↦ h entries (hentries.trans hx)

theorem nodup_keys_merged (written : List (String × Document)) :
    ((merged written).map (·.1)).Nodup := by
  rw [merged, List.map_map]
  simpa [Function.comp_def] using nodup_eraseDups (written.map (·.1))

theorem mem_of_mem_merged {written : List (String × Document)} {e : String × Document}
    (h : e ∈ merged written) : e ∈ written := by
  obtain ⟨key, hkey, rfl⟩ := List.mem_map.mp h
  obtain ⟨e, he, rfl⟩ := List.mem_map.mp (List.mem_eraseDups.mp hkey)
  cases hlookup : written.reverse.lookup e.1 with
  | none =>
      have hne := List.lookup_eq_none_iff.mp hlookup e (List.mem_reverse.mpr he)
      simp at hne
  | some value =>
      obtain ⟨before, after, hsplit, -⟩ := List.lookup_eq_some_iff.mp hlookup
      have hmem : (e.1, value) ∈ written.reverse := by simp [hsplit]
      rw [lastValue, hlookup]
      exact List.mem_reverse.mp hmem

theorem distinct_resolved (d : Document) : Distinct d.resolved := by
  induction d with
  | object written ih =>
      intro entries hentries
      rw [resolved, resolvedEntries_eq_map] at hentries
      cases hentries with
      | self => exact nodup_keys_merged _
      | entry he hentries =>
          obtain ⟨e, hmem, rfl⟩ := List.mem_map.mp (mem_of_mem_merged he)
          exact ih e hmem entries hentries
  | array items ih =>
      intro entries hentries
      rw [resolved, resolvedItems_eq_map] at hentries
      cases hentries with
      | item hitem hentries =>
          obtain ⟨item, hmem, rfl⟩ := List.mem_map.mp hitem
          exact ih item hmem entries hentries
  | _ =>
      intro entries hentries
      cases hentries

/-- What is read is an object, and no object in it has a key twice. -/
theorem exists_object_of_parse {text : String} {d : Document} (h : parse text = .ok d) :
    ∃ entries, d = .object entries ∧ Distinct d := by
  obtain ⟨w, q, r, -, -, hroot⟩ := parse_eq_ok_iff_root.mp h
  obtain ⟨written, -, -, rfl⟩ := Reader.root_iff.mp hroot
  exact ⟨_, rfl, distinct_resolved _⟩

/-! ## Places -/

@[simp] theorem get?_nil (d : Document) : d.get? [] = some d := rfl

@[simp] theorem get?_cons (d : Document) (segment : Segment) (path : Path) :
    d.get? (segment :: path) = (d.step? segment).bind (·.get? path) := rfl

theorem get?_append (d : Document) (path path' : Path) :
    d.get? (path ++ path') = (d.get? path).bind (·.get? path') := by
  induction path generalizing d with
  | nil => rfl
  | cons segment path ih =>
      rw [List.cons_append, get?_cons, get?_cons, Option.bind_assoc]
      congr 1
      funext x
      exact ih x

theorem get?_concat (d : Document) (path : Path) (segment : Segment) :
    d.get? (path ++ [segment]) = (d.get? path).bind (·.step? segment) := by
  rw [get?_append]
  congr 1
  funext x
  exact Option.bind_fun_some _

theorem mem_of_step?_key {entries : List (String × Document)} {name : String} {x : Document}
    (h : (object entries).step? (.key name) = some x) : (name, x) ∈ entries := by
  obtain ⟨e, he, rfl⟩ := Option.map_eq_some_iff.mp h
  obtain rfl : e.1 = name := by simpa using List.find?_some he
  exact List.mem_of_find?_eq_some he

theorem step?_key_eq_some_iff {entries : List (String × Document)} {name : String} {x : Document}
    (h : (entries.map (·.1)).Nodup) :
    (object entries).step? (.key name) = some x ↔ (name, x) ∈ entries := by
  refine ⟨mem_of_step?_key, fun hmem ↦ ?_⟩
  rw [step?, (find?_key_eq_some_iff h).mpr ⟨hmem, rfl⟩]
  rfl

theorem part_of_step? {d x : Document} {segment : Segment} (h : d.step? segment = some x) :
    Part x d := by
  fun_cases step? d segment with
  | case1 entries name =>
      obtain ⟨e, he, rfl⟩ := Option.map_eq_some_iff.mp h
      exact .entry (List.mem_of_find?_eq_some he) .self
  | case2 items i => exact .item (List.mem_of_getElem? h) .self
  | case3 => simp [step?] at h

theorem part_of_get? {d x : Document} {path : Path} (h : d.get? path = some x) : Part x d := by
  induction path generalizing d with
  | nil =>
      obtain rfl := Option.some.inj h
      exact .self
  | cons segment path ih =>
      obtain ⟨y, hy, hx⟩ := Option.bind_eq_some_iff.mp h
      exact (ih hx).trans (part_of_step? hy)

theorem Distinct.exists_get?_of_part {d x : Document} (h : Distinct d) (hx : Part x d) :
    ∃ path, d.get? path = some x := by
  induction hx with
  | self => exact ⟨[], rfl⟩
  | @entry entries e he hx ih =>
      obtain ⟨path, hpath⟩ := ih (h.of_part (.entry he .self))
      have hstep : (object entries).step? (.key e.1) = some e.2 :=
        (step?_key_eq_some_iff (h entries .self)).mpr he
      exact ⟨.key e.1 :: path, by rw [get?_cons, hstep]; exact hpath⟩
  | @item items item hitem hx ih =>
      obtain ⟨path, hpath⟩ := ih (h.of_part (.item hitem .self))
      obtain ⟨i, hi⟩ := List.mem_iff_getElem?.mp hitem
      have hstep : (array items).step? (.index i) = some item := hi
      exact ⟨.index i :: path, by rw [get?_cons, hstep]; exact hpath⟩

end Dialogue.Document
