import Dialogue.Document.Flat
import Dialogue.Proofs.Document.PathText
import Dialogue.Proofs.Document.Scalars
import Dialogue.Proofs.Table

/-!
# The flat view and the tree

A document and its flat view answer the same questions, as long as its keys can be written in
paths. What stands in the flat view is the text of each scalar under the text of its path, and no
two paths have one text.
-/

namespace Dialogue.Document

open Dialogue.Path (dotted suffix)

/-! ## Leaves -/

/-- The text of the scalar at a path. -/
def leafAt? (d : Document) (path : Path) : Option String := (d.get? path).bind scalarText?

@[simp] theorem leafAt?_nil (d : Document) : d.leafAt? [] = d.scalarText? := rfl

@[simp] theorem leafAt?_cons (d : Document) (segment : Segment) (path : Path) :
    d.leafAt? (segment :: path) = (d.step? segment).bind (·.leafAt? path) := by
  rw [leafAt?, get?_cons, Option.bind_assoc]
  rfl

theorem leafAt?_append (d : Document) (path path' : Path) :
    d.leafAt? (path ++ path') = (d.get? path).bind (·.leafAt? path') := by
  rw [leafAt?, get?_append, Option.bind_assoc]
  rfl

theorem holdsScalar_of_leafAt? {d : Document} {path : Path} {text : String}
    (h : d.leafAt? path = some text) : d.HoldsScalar := by
  obtain ⟨x, hx, htext⟩ := Option.bind_eq_some_iff.mp h
  exact ⟨x, part_of_get? hx, by rw [htext]; rfl⟩

theorem Distinct.exists_leafAt? {d : Document} (h : Distinct d) (hd : d.HoldsScalar) :
    ∃ path text, d.leafAt? path = some text := by
  obtain ⟨x, hx, hscalar⟩ := hd
  obtain ⟨path, hpath⟩ := h.exists_get?_of_part hx
  obtain ⟨text, htext⟩ := Option.isSome_iff_exists.mp hscalar
  exact ⟨path, text, by rw [leafAt?, hpath]; exact htext⟩

/-! ## Written paths -/

/-- The written path of what a segment leads to in the container at `path`. -/
def segmentPath (path : String) : Segment → String
  | .key name => entryPath path name
  | .index i => itemPath path i

/-- The written path of a place, put together as the flat view does it. -/
def writtenPath (place : Path) : String := place.foldl segmentPath ""

theorem entryLeaves_eq_flatMap (path : String) (entries : List (String × Document)) :
    entryLeaves path entries = entries.flatMap fun e ↦ leaves (entryPath path e.1) e.2 := by
  induction entries with
  | nil => rfl
  | cons e entries ih => rw [entryLeaves, ih, List.flatMap_cons]

theorem itemLeaves_eq_flatMap (path : String) (i : Nat) (items : List Document) :
    itemLeaves path i items =
      (items.zipIdx i).flatMap fun item ↦ leaves (itemPath path item.2) item.1 := by
  induction items generalizing i with
  | nil => rfl
  | cons item items ih => rw [itemLeaves, ih, List.zipIdx_cons, List.flatMap_cons]

theorem leaves_of_scalar (path : String) {d : Document} {text : String}
    (h : d.scalarText? = some text) : leaves path d = [(path, text)] := by
  fun_cases scalarText? d <;> simp_all [scalarText?, leaves]

theorem toList_entryPath {path : String} (h : path ≠ "") (key : String) :
    (entryPath path key).toList = path.toList ++ (Segment.key key).write 0 := by
  rw [entryPath, if_neg h, String.toList_append, String.toList_append, List.append_assoc]
  rfl

theorem toList_itemPath (path : String) (i : Nat) :
    (itemPath path i).toList = path.toList ++ (Segment.index i).write 0 := by
  simp [itemPath, Segment.write, Nat.toList_repr]

/-- The flat view is made of the scalars under the written paths of their places. -/
theorem leaves_eq_map (path : String) (d : Document) :
    leaves path d = d.scalars.map fun x ↦ (x.1.foldl segmentPath path, textOf (some x.2)) := by
  have hunder (path : String) (segment : Segment) (placed : List (Path × Document)) :
      (under segment placed).map (fun x ↦ (x.1.foldl segmentPath path, textOf (some x.2))) =
        placed.map fun x ↦
          (x.1.foldl segmentPath (segmentPath path segment), textOf (some x.2)) := by
    rw [under, List.map_map]
    rfl
  have hscalar {d : Document} {text : String} (hd : d.scalarText? = some text) (path : String) :
      leaves path d = d.scalars.map fun x ↦ (x.1.foldl segmentPath path, textOf (some x.2)) := by
    rw [leaves_of_scalar path hd, scalars_of_scalar (by rw [hd]; rfl)]
    simp [textOf, hd]
  induction d generalizing path with
  | object entries ih =>
      rw [leaves, entryLeaves_eq_flatMap, scalars, entryScalars_eq_flatMap, List.map_flatMap]
      refine List.flatMap_congr fun e he ↦ ?_
      rw [hunder, ih e he]
      rfl
  | array items ih =>
      rw [leaves, itemLeaves_eq_flatMap, scalars, itemScalars_eq_flatMap, List.map_flatMap]
      refine List.flatMap_congr fun item hitem ↦ ?_
      rw [hunder, ih item.1 (List.fst_mem_of_mem_zipIdx hitem)]
      rfl
  | bool value => cases value <;> exact hscalar rfl path
  | _ => exact hscalar rfl path

theorem toList_foldl_segmentPath {path : String} (h : path ≠ "") (place : Path) :
    (place.foldl segmentPath path).toList = path.toList ++ suffix place := by
  induction place generalizing path with
  | nil => simp
  | cons segment place ih =>
      have hsegment : (segmentPath path segment).toList = path.toList ++ segment.write 0 := by
        cases segment with
        | key name => exact toList_entryPath h name
        | index i => exact toList_itemPath path i
      have hne : segmentPath path segment ≠ "" := by
        intro hempty
        rw [hempty] at hsegment
        exact h (by simpa using (List.append_eq_nil_iff.mp hsegment.symm).1)
      rw [List.foldl_cons, ih hne, hsegment, Path.suffix_cons, List.append_assoc]

theorem dotted_writtenPath {place : Path} (h : place.FromObject) :
    dotted (writtenPath place) = suffix place := by
  cases place with
  | nil => rfl
  | cons segment place =>
      obtain ⟨name, rfl, hname⟩ := h.exists_key
      have hstart : entryPath "" name = name := if_pos rfl
      have htext : (writtenPath (.key name :: place)).toList = name.toList ++ suffix place := by
        rw [writtenPath, List.foldl_cons, segmentPath, hstart]
        exact toList_foldl_segmentPath hname place
      rw [Path.suffix_cons, Segment.write, List.cons_append, Path.dotted_eq_cons_iff]
      refine ⟨fun hempty ↦ ?_, htext⟩
      rw [hempty] at htext
      exact hname (by simpa using (List.append_eq_nil_iff.mp htext.symm).1)

/-! ## Documents that paths can address -/

/-- No array in the document has more items than there are indices. -/
def Indexed (d : Document) : Prop :=
  ∀ items, Part (.array items) d → items.length < Text.Decimal.bound64

/-- No key has a dot or a bracket in it, no array has more items than there are indices, and the
root has no empty key. -/
structure Plain (d : Document) : Prop where
  keys : ∀ entries, Part (.object entries) d → ∀ e ∈ entries, ∀ c ∈ e.1.toList, c ≠ '.' ∧ c ≠ '['
  indexed : Indexed d
  root : ∀ entries, d = .object entries → ∀ e ∈ entries, e.1 ≠ ""

/-- No key has a dot or a bracket in it, and the root has no empty key. -/
structure Clear (d : Document) : Prop where
  keys : ∀ entries, Part (.object entries) d → ∀ e ∈ entries, ∀ c ∈ e.1.toList, c ≠ '.' ∧ c ≠ '['
  root : ∀ entries, d = .object entries → ∀ e ∈ entries, e.1 ≠ ""

theorem Plain.clear {d : Document} (h : Plain d) : Clear d := { h with }

theorem Clear.writable_of_step? {d x y : Document} (h : Clear d) (hx : Part x d) {name : String}
    (hy : x.step? (.key name) = some y) : (Segment.key name).Writable := by
  cases x with
  | object entries => exact h.keys entries hx _ (mem_of_step?_key hy)
  | _ => cases hy

theorem Clear.unmarked_of_get? {d x y : Document} (h : Clear d) (hx : Part x d) {path : Path}
    (hy : x.get? path = some y) : path.Unmarked := by
  induction path generalizing x with
  | nil => exact fun name hname ↦ nomatch hname
  | cons segment path ih =>
      obtain ⟨z, hz, hget⟩ := Option.bind_eq_some_iff.mp hy
      refine Path.unmarked_cons_iff.mpr ⟨?_, ih ((part_of_step? hz).trans hx) hget⟩
      rintro name rfl
      exact h.writable_of_step? hx hz

theorem Plain.writable_of_step? {d x y : Document} (h : Plain d) (hx : Part x d)
    {segment : Segment} (hy : x.step? segment = some y) : segment.Writable := by
  cases segment with
  | key name => exact h.clear.writable_of_step? hx hy
  | index i =>
      cases x with
      | array items =>
          obtain ⟨hi, -⟩ := List.getElem?_eq_some_iff.mp hy
          exact Nat.lt_trans hi (h.indexed items hx)
      | _ => cases hy

theorem Plain.writable_of_get? {d x y : Document} (h : Plain d) (hx : Part x d) {path : Path}
    (hy : x.get? path = some y) : path.Writable := by
  induction path generalizing x with
  | nil => exact fun segment hsegment ↦ nomatch hsegment
  | cons segment path ih =>
      obtain ⟨z, hz, hget⟩ := Option.bind_eq_some_iff.mp hy
      exact List.forall_mem_cons.mpr ⟨h.writable_of_step? hx hz,
        ih ((part_of_step? hz).trans hx) hget⟩

section Root

variable {entries : List (String × Document)}

theorem Clear.fromObject_of_get? (h : Clear (.object entries)) {x : Document} {path : Path}
    (hx : (object entries).get? path = some x) : path.FromObject := by
  cases path with
  | nil => exact fun segment hsegment ↦ nomatch hsegment
  | cons segment path =>
      obtain ⟨y, hy, -⟩ := Option.bind_eq_some_iff.mp hx
      intro segment' hsegment'
      obtain rfl : segment = segment' := Option.some.inj hsegment'
      cases segment with
      | key name => exact ⟨name, rfl, h.root entries rfl _ (mem_of_step?_key hy)⟩
      | index i => cases hy

/-- What stands at a text is what stands at the path that the text writes. -/
theorem Plain.at?_eq_some_iff (h : Plain (.object entries)) {p : String}
    (hp : Path.Shortest p.toList) {x : Document} :
    (object entries).at? p = some x ↔
      ∃ q, dotted p = suffix q ∧ (object entries).get? q = some x := by
  rw [at?, Option.bind_eq_some_iff]
  constructor
  · rintro ⟨q, hq, hx⟩
    exact ⟨q, Path.dotted_eq_suffix_of_ofText? (h.clear.fromObject_of_get? hx) hp hq, hx⟩
  · rintro ⟨q, hq, hx⟩
    have hpath : Path.ofText? p = some q :=
      Path.ofText?_of_dotted (h.clear.fromObject_of_get? hx) (h.writable_of_get? .self hx) hq
    exact ⟨q, hpath, hx⟩

/-- The written path of a place tells the place. -/
theorem Clear.eq_of_writtenPath_eq (h : Clear (.object entries)) {place place' : Path}
    {x x' : Document} (hx : (object entries).get? place = some x)
    (hx' : (object entries).get? place' = some x')
    (heq : writtenPath place = writtenPath place') : place = place' := by
  apply (h.unmarked_of_get? .self hx).eq_of_suffix_eq (h.unmarked_of_get? .self hx')
  rw [← dotted_writtenPath (h.fromObject_of_get? hx), heq,
    dotted_writtenPath (h.fromObject_of_get? hx')]

theorem Clear.nodup_writtenPath (h : Clear (.object entries)) (hd : Distinct (.object entries)) :
    ((object entries).scalars.map fun x ↦ writtenPath x.1).Nodup := by
  rw [← Function.comp_def writtenPath Prod.fst, ← List.map_map]
  refine (nodup_scalars hd).map_on fun place hplace place' hplace' heq ↦ ?_
  obtain ⟨⟨_, x⟩, hx, rfl⟩ := List.mem_map.mp hplace
  obtain ⟨⟨_, x'⟩, hx', rfl⟩ := List.mem_map.mp hplace'
  exact h.eq_of_writtenPath_eq ((mem_scalars_iff hd).mp hx).1 ((mem_scalars_iff hd).mp hx').1 heq

/-- The flat view has each scalar once, under its written path, and nothing else. -/
theorem Clear.perm_flatten (h : Clear (.object entries)) (hd : Distinct (.object entries)) :
    (flatten (.object entries)).entries.Perm
      ((object entries).scalars.map fun x ↦ (writtenPath x.1, textOf (some x.2))) := by
  have hleaves : leaves "" (.object entries) =
      (object entries).scalars.map fun x ↦ (writtenPath x.1, textOf (some x.2)) :=
    leaves_eq_map "" (.object entries)
  rw [flatten, ← hleaves]
  apply Table.perm_ofList
  rw [hleaves, List.map_map]
  exact h.nodup_writtenPath hd

/-- The flat view has the scalar at each path under the text of that path, and nothing else. -/
theorem get?_flatten_eq_some_iff (h : Clear (.object entries)) (hd : Distinct (.object entries))
    {p text : String} : (flatten (.object entries)).get? p = some text ↔
      ∃ q, dotted p = suffix q ∧ (object entries).leafAt? q = some text := by
  rw [Table.get?_eq_some_iff, (h.perm_flatten hd).mem_iff, List.mem_map]
  constructor
  · rintro ⟨⟨q, x⟩, hx, heq⟩
    cases heq
    obtain ⟨hget, hscalar⟩ := (mem_scalars_iff hd).mp hx
    obtain ⟨text, htext⟩ := Option.isSome_iff_exists.mp hscalar
    refine ⟨q, dotted_writtenPath (h.fromObject_of_get? hget), ?_⟩
    simp [leafAt?, textOf, hget, htext]
  · rintro ⟨q, hq, hleaf⟩
    obtain ⟨x, hget, htext⟩ := Option.bind_eq_some_iff.mp hleaf
    have hp : writtenPath q = p :=
      Path.dotted_injective ((dotted_writtenPath (h.fromObject_of_get? hget)).trans hq.symm)
    refine ⟨(q, x), (mem_scalars_iff hd).mpr ⟨hget, by rw [htext]; rfl⟩, ?_⟩
    simp [hp, textOf, htext]

/-- The flat view has at a text what a query for that text finds. -/
theorem get?_flatten (h : Plain (.object entries)) (hd : Distinct (.object entries)) {p : String}
    (hp : Path.Shortest p.toList) :
    (flatten (.object entries)).get? p = ((object entries).at? p).bind scalarText? := by
  ext text
  rw [get?_flatten_eq_some_iff h.clear hd, Option.bind_eq_some_iff]
  simp only [h.at?_eq_some_iff hp, leafAt?, Option.bind_eq_some_iff]
  constructor
  · rintro ⟨q, hq, x, hx, htext⟩
    exact ⟨x, ⟨q, hq, hx⟩, htext⟩
  · rintro ⟨x, ⟨q, hq, hx⟩, htext⟩
    exact ⟨q, hq, x, hx, htext⟩

end Root

end Dialogue.Document
