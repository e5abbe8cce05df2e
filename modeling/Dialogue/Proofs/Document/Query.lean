import Dialogue.Proofs.Document.Flat
import Mathlib.Data.List.Permutation

/-!
# Queries and the flat view

What queries find can be told from the flat view alone: a text from the entry of the path, the
size of an array from the indices that follow the path in longer ones, and the keys of an object
from what follows the path and a dot. Texts that write no path have no such entries.
-/

namespace Dialogue.Document

open Dialogue.Path (dotted suffix inKey)

/-- The number is one more than the last index with a property, or zero if there is none. -/
def OnePastLast (P : Nat → Prop) (n : Nat) : Prop :=
  (n = 0 ∧ ∀ i, ¬P i) ∨ ∃ i, n = i + 1 ∧ P i ∧ ∀ j, P j → j ≤ i

/-- The texts below which the entries of an object are listed in the flat view. -/
def entryPrefix (p : String) : List Char := if p = "" then [] else p.toList ++ ['.']

theorem toList_eq_entryPrefix_append_iff {f p : String} (hf : f ≠ "") {rest : List Char} :
    f.toList = entryPrefix p ++ rest ↔ dotted f = dotted p ++ '.' :: rest := by
  rw [Path.dotted_of_ne hf]
  by_cases hp : p = ""
  · simp [entryPrefix, dotted, hp]
  · simp [entryPrefix, dotted, hp]

/-! ## Sizes -/

theorem UpToScalar.onePastLast {items kept : List Document} (h : UpToScalar items kept) :
    OnePastLast (fun i ↦ ∃ item, items[i]? = some item ∧ item.HoldsScalar) kept.length := by
  rcases List.eq_nil_or_concat kept with rfl | ⟨init, last, rfl⟩
  · refine .inl ⟨rfl, ?_⟩
    rintro i ⟨item, hi, hitem⟩
    exact absurd (h.lt_of_getElem? hi hitem) (Nat.not_lt_zero i)
  · obtain ⟨rest, rfl, -⟩ := h.exists_rest
    refine .inr ⟨init.length, by simp, ⟨last, by simp, h.last last (by simp)⟩, ?_⟩
    rintro j ⟨item, hj, hitem⟩
    have hlt := h.lt_of_getElem? hj hitem
    rw [List.length_concat] at hlt
    exact Nat.le_of_lt_succ hlt

theorem onePastLast_sizeOf (found : Option Document) :
    OnePastLast (fun i ↦ ∃ items item, found = some (.array items) ∧ items[i]? = some item ∧
      item.HoldsScalar) (sizeOf found) := by
  by_cases h : ∃ items, found = some (.array items)
  · obtain ⟨items, rfl⟩ := h
    simpa [sizeOf] using (upToScalar_itemsOf items).onePastLast
  · have hsize : sizeOf found = 0 := by
      rw [sizeOf, itemsOf_eq_nil (not_exists.mp h)]
      rfl
    exact .inl ⟨hsize, fun i ⟨items, _, hfound, _⟩ ↦ h ⟨items, hfound⟩⟩

/-! ## Keys -/

theorem mem_keysOf_iff {found : Option Document} {k : String} :
    k ∈ keysOf found ↔ ∃ entries x, found = some (.object entries) ∧ (k, x) ∈ entries ∧
      x.HoldsScalar := by
  rw [keysOf.eq_def]
  split
  · next entries => simp [hasLeaves_iff, and_comm]
  · next h =>
      refine iff_of_false (List.not_mem_nil) ?_
      rintro ⟨entries, x, hfound, -⟩
      exact h entries hfound

theorem nodup_keysOf {d x : Document} (h : Distinct d) {path : Path}
    (hx : d.get? path = some x) : (keysOf (some x)).Nodup := by
  rw [keysOf.eq_def]
  split
  · next entries heq =>
      cases heq
      exact ((h entries (part_of_get? hx)).sublist (List.filter_sublist.map _))
  · exact List.nodup_nil

/-! ## What the flat view tells -/

section Root

variable {entries : List (String × Document)} {p : String}

theorem contains_flatten_iff (h : Plain (.object entries)) (hd : Distinct (.object entries))
    {f : String} : (flatten (.object entries)).contains f ↔
      ∃ q text, dotted f = suffix q ∧ (object entries).leafAt? q = some text := by
  rw [Table.contains, Option.isSome_iff_exists]
  simp only [get?_flatten_eq_some_iff h.clear hd]
  exact exists_comm

/-- The root is no scalar, so nothing is listed under the empty text. -/
theorem ne_empty_of_contains (h : Plain (.object entries)) (hd : Distinct (.object entries))
    {f : String} (hf : (flatten (.object entries)).contains f) : f ≠ "" := by
  rintro rfl
  obtain ⟨q, text, hq, hleaf⟩ := (contains_flatten_iff h hd).mp hf
  obtain rfl := Path.suffix_eq_nil_iff.mp hq.symm
  cases hleaf

/-- Where a listed text has a dot or a bracket it is cut in two: the path of a place and the path of
a leaf below that place. -/
theorem exists_leafAt?_of_contains (h : Plain (.object entries)) (hd : Distinct (.object entries))
    {f : String} {s r : List Char} {c : Char} (hc : c = '.' ∨ c = '[')
    (hf : dotted f = s ++ c :: r) (hcontains : (flatten (.object entries)).contains f) :
    ∃ before after x text, suffix before = s ∧ suffix after = c :: r ∧
      (object entries).get? before = some x ∧ x.leafAt? after = some text := by
  obtain ⟨q, text, hq, hleaf⟩ := (contains_flatten_iff h hd).mp hcontains
  obtain ⟨y, hy, -⟩ := Option.bind_eq_some_iff.mp hleaf
  obtain ⟨before, after, rfl, hbefore, hafter⟩ :=
    Path.exists_append_of_suffix_eq (h.writable_of_get? .self hy) hc (hq.symm.trans hf)
  rw [leafAt?_append] at hleaf
  obtain ⟨x, hx, htext⟩ := Option.bind_eq_some_iff.mp hleaf
  exact ⟨before, after, x, text, hbefore, hafter, hx, htext⟩

/-- Below a place that holds a scalar something is listed. -/
theorem exists_contains_of_holdsScalar (h : Plain (.object entries))
    (hd : Distinct (.object entries)) {q : Path} {y : Document}
    (hy : (object entries).get? q = some y) (hscalar : y.HoldsScalar) :
    ∃ after f, dotted f = suffix (q ++ after) ∧ (flatten (.object entries)).contains f := by
  obtain ⟨after, text, hleaf⟩ := (hd.of_part (part_of_get? hy)).exists_leafAt? hscalar
  have hwhole : (object entries).leafAt? (q ++ after) = some text := by
    rw [leafAt?_append, hy]
    exact hleaf
  obtain ⟨x, hx, -⟩ := Option.bind_eq_some_iff.mp hwhole
  obtain ⟨f, hf⟩ := (h.clear.fromObject_of_get? hx).exists_dotted
  exact ⟨after, f, hf, (contains_flatten_iff h hd).mpr ⟨q ++ after, text, hf, hwhole⟩⟩

theorem leafAt?_index_eq_some_iff {x : Document} {i : Nat} {path : Path} {text : String} :
    x.leafAt? (.index i :: path) = some text ↔ ∃ items item, x = .array items ∧
      items[i]? = some item ∧ item.leafAt? path = some text := by
  rw [leafAt?_cons]
  cases x <;> simp [step?, Option.bind_eq_some_iff]

theorem leafAt?_key_eq_some_iff {x : Document} (hd : Distinct x) {k : String} {path : Path}
    {text : String} : x.leafAt? (.key k :: path) = some text ↔ ∃ inner y, x = .object inner ∧
      (k, y) ∈ inner ∧ y.leafAt? path = some text := by
  rw [leafAt?_cons, Option.bind_eq_some_iff]
  cases x with
  | object inner => simp [step?_key_eq_some_iff (hd inner .self)]
  | _ => simp [step?]

theorem index_mem_flatten_iff (h : Plain (.object entries)) (hd : Distinct (.object entries))
    (hp : Path.Shortest p.toList) {i : Nat} :
    (∃ f, (flatten (.object entries)).contains f ∧
      (p ++ "[" ++ i.repr ++ "]").toList <+: f.toList) ↔
      ∃ items item, (object entries).at? p = some (.array items) ∧ items[i]? = some item ∧
        item.HoldsScalar := by
  have hindex : (p ++ "[" ++ i.repr ++ "]").toList = p.toList ++ (Segment.index i).write 0 :=
    toList_itemPath p i
  simp only [hindex]
  constructor
  · rintro ⟨f, hcontains, r, hf⟩
    have hdotted : dotted f = '.' :: p.toList ++ ((Segment.index i).write 0 ++ r) := by
      refine Path.dotted_eq_cons_iff.mpr ⟨?_, hf.symm.trans (List.append_assoc ..)⟩
      rintro rfl
      simp [Segment.write] at hf
    -- The bracket starts a segment, so the text is cut there and not within a key.
    obtain ⟨before, after, x, text, hbefore, hafter, hx, hleaf⟩ :=
      exists_leafAt?_of_contains h hd (.inr rfl) hdotted hcontains
    obtain ⟨after, rfl, -⟩ := Path.exists_index_of_suffix_eq hafter
    obtain ⟨items, item, rfl, hitem, htext⟩ := leafAt?_index_eq_some_iff.mp hleaf
    have hne : p ≠ "" := ((h.clear.fromObject_of_get? hx).toList_of_dotted
      (h.writable_of_get? .self hx) hbefore.symm).1
    have hat : dotted p = suffix before := by rw [Path.dotted_of_ne hne, hbefore]
    exact ⟨items, item, (h.at?_eq_some_iff hp).mpr ⟨before, hat, hx⟩, hitem,
      holdsScalar_of_leafAt? htext⟩
  · rintro ⟨items, item, hat, hitem, hscalar⟩
    obtain ⟨before, hbefore, hx⟩ := (h.at?_eq_some_iff hp).mp hat
    have hne : p ≠ "" := by
      rintro rfl
      obtain rfl := Path.suffix_eq_nil_iff.mp hbefore.symm
      cases hx
    have hitem : (object entries).get? (before ++ [.index i]) = some item := by
      rw [get?_concat, hx]
      exact hitem
    obtain ⟨after, f, hf, hcontains⟩ := exists_contains_of_holdsScalar h hd hitem hscalar
    rw [Path.suffix_append, Path.suffix_append, ← hbefore, Path.dotted_of_ne hne, List.cons_append,
      List.cons_append, Path.dotted_eq_cons_iff] at hf
    exact ⟨f, hcontains, suffix after, by rw [hf.2, Path.suffix_cons, Path.suffix_nil,
      List.append_nil, List.append_assoc]⟩

theorem key_mem_flatten_iff (h : Plain (.object entries)) (hd : Distinct (.object entries))
    (hp : Path.Shortest p.toList) {k : String} :
    (∃ f rest, (flatten (.object entries)).contains f ∧ f.toList = entryPrefix p ++ rest ∧
      k.toList = rest.takeWhile inKey) ↔
      ∃ inner x, (object entries).at? p = some (.object inner) ∧ (k, x) ∈ inner ∧
        x.HoldsScalar := by
  constructor
  · rintro ⟨f, rest, hcontains, hf, hk⟩
    have hne : f ≠ "" := ne_empty_of_contains h hd hcontains
    obtain ⟨before, after, x, text, hbefore, hafter, hx, hleaf⟩ :=
      exists_leafAt?_of_contains h hd (.inl rfl) ((toList_eq_entryPrefix_append_iff hne).mp hf)
        hcontains
    obtain ⟨name, after, rfl, rfl⟩ := Path.exists_key_of_suffix_eq hafter
    obtain ⟨inner, y, rfl, hy, htext⟩ :=
      (leafAt?_key_eq_some_iff (hd.of_part (part_of_get? hx))).mp hleaf
    have hname : (Segment.key name).Writable := h.keys inner (part_of_get? hx) (name, y) hy
    obtain rfl : k = name :=
      String.toList_injective (hk.trans (Path.takeWhile_inKey hname after))
    exact ⟨inner, y, (h.at?_eq_some_iff hp).mpr ⟨before, hbefore.symm, hx⟩, hy,
      holdsScalar_of_leafAt? htext⟩
  · rintro ⟨inner, y, hat, hy, hscalar⟩
    obtain ⟨before, hbefore, hx⟩ := (h.at?_eq_some_iff hp).mp hat
    have hkey : (object entries).get? (before ++ [.key k]) = some y := by
      rw [get?_concat, hx]
      exact (step?_key_eq_some_iff (hd inner (part_of_get? hx))).mpr hy
    obtain ⟨after, f, hf, hcontains⟩ := exists_contains_of_holdsScalar h hd hkey hscalar
    have hname : (Segment.key k).Writable := h.keys inner (part_of_get? hx) (k, y) hy
    have hne : f ≠ "" := ne_empty_of_contains h hd hcontains
    rw [List.append_assoc, List.singleton_append, Path.suffix_append, ← hbefore] at hf
    exact ⟨f, k.toList ++ suffix after, hcontains, (toList_eq_entryPrefix_append_iff hne).mpr hf,
      (Path.takeWhile_inKey hname after).symm⟩

end Root

/-- For a document that is read and whose keys can be written in paths, and for every text whose
numbers in brackets have no needless zeros, the queries tell what the flat view tells. The text at
the path is the entry under it, or empty without one. The size of the array at the path is one more
than the last index that follows the path in the flat view, and the keys of the object at the path
are what follows the path and a dot, or what comes first if the path is the root's. A text that
writes no path is no exception: it finds nothing. -/
theorem queries_eq_flat {text : String} {d : Document} (hparse : parse text = .ok d)
    (hplain : d.Plain) {p : String} (hp : Path.Shortest p.toList) :
    textOf (d.at? p) = (d.flatten.get? p).getD "" ∧
    intOf (d.at? p) = Text.Decimal.leadingInt ((d.flatten.get? p).getD "") ∧
    flagOf (d.at? p) = decide ((d.flatten.get? p).getD "" = "true") ∧
    OnePastLast (fun i ↦ ∃ f, d.flatten.contains f ∧
      (p ++ "[" ++ i.repr ++ "]").toList <+: f.toList) (sizeOf (d.at? p)) ∧
    (keysOf (d.at? p)).Nodup ∧
    (∀ k, k ∈ keysOf (d.at? p) ↔ ∃ f rest, d.flatten.contains f ∧
      f.toList = (if p = "" then [] else p.toList ++ ['.']) ++ rest ∧
      k.toList = rest.takeWhile fun c ↦ c ≠ '.' && c ≠ '[') ∧
    (Path.ofText? p = none → textOf (d.at? p) = "" ∧ intOf (d.at? p) = 0 ∧
      flagOf (d.at? p) = false ∧ sizeOf (d.at? p) = 0 ∧ keysOf (d.at? p) = []) := by
  obtain ⟨entries, rfl, hd⟩ := exists_object_of_parse hparse
  have htext : textOf ((object entries).at? p) = ((object entries).flatten.get? p).getD "" := by
    rw [get?_flatten hplain hd hp]
    rfl
  refine ⟨htext, ?_, ?_, ?_, ?_, ?_, ?_⟩
  · rw [intOf, htext]
  · rw [flagOf, htext]
  · simp only [index_mem_flatten_iff hplain hd hp]
    exact onePastLast_sizeOf _
  · cases hfound : (object entries).at? p with
    | none => exact List.nodup_nil
    | some x =>
        obtain ⟨q, -, hx⟩ := (hplain.at?_eq_some_iff hp).mp hfound
        exact nodup_keysOf hd hx
  · intro k
    rw [mem_keysOf_iff]
    exact (key_mem_flatten_iff hplain hd hp).symm
  · intro hnone
    rw [at?, hnone]
    exact ⟨rfl, rfl, rfl, rfl, rfl⟩

/-- An array under an empty key, with an item without leaves at its end. -/
theorem queries_eq_flat_empty_key :
    let d : Document := .object [("a", .object [("", .array [.null, .object []])])]
    OnePastLast (fun i ↦ ∃ f, d.flatten.contains f ∧
      ("a." ++ "[" ++ i.repr ++ "]").toList <+: f.toList) 1 := by
  intro d
  have hparse : parse "\x7b\"a\":\x7b\"\":[null,\x7b\x7d]\x7d\x7d" = .ok d := by cbv
  have hplain : d.Plain := by
    have hnull {x : Document} : Part x .null ↔ x = .null := part_iff_of_scalar rfl
    refine ⟨?_, ?_, ?_⟩
    · simp [d, hnull]
    · simp [d, Indexed, hnull, Text.Decimal.bound64]
    · simp [d]
  have hshort : Path.Shortest "a.".toList := by
    intro before digits after h
    have hmem : '[' ∈ "a.".toList := by
      rw [h]
      simp
    exact absurd hmem (by decide)
  obtain ⟨-, -, -, hsize, -⟩ := queries_eq_flat hparse hplain hshort
  exact hsize

end Dialogue.Document
