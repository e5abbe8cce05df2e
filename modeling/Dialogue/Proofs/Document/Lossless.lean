import Dialogue.Proofs.Document.Flat
import Dialogue.Proofs.Document.Image
import Mathlib.Data.List.Permutation

/-!
# Flattening loses nothing

The written path of a scalar tells its place again, as long as no key has a mark of paths in it, so
no scalar of a document is overwritten by another in the flat view, and a query for the path finds
the scalar itself. Nothing but that last fact depends on how many indices can be read.
-/

namespace Dialogue.Document

/-- An array has fewer items than the text that it is read from has characters, so indices of 64
bits suffice for a text whose characters they can count. -/
theorem indexed_of_parse {text : String} {d : Document} (h : parse text = .ok d)
    (hlength : text.length < Text.Decimal.bound64) : d.Indexed := by
  obtain ⟨w, o, r, written, htext, -, hvalue, hdepth, hd⟩ := parse_eq_ok_iff.mp h
  intro items hitems
  have hwithin : Grammar.Within 257 o d := ⟨_, hvalue, hdepth, hd⟩
  obtain ⟨m, v, hv, hinfix⟩ := exists_within_of_part hitems hwithin
  obtain ⟨-, -, hitemsLength, -⟩ := within_array hv
  have hvo : v.length ≤ o.length := hinfix.length_le
  have hot : o.length ≤ text.length := by
    rw [← String.length_toList, htext, List.length_append, List.length_append]
    omega
  omega

/-- In a document that is read, where no key has a dot or an opening bracket in it and the root has
no empty key, the flat view has as many entries as the document has scalars. These stand at
different places, the places have different written paths, and the flat view has the text of each
scalar under its written path. A query for the path leads to the place and finds the scalar there,
since no text in memory has so many characters that indices of 64 bits cannot count them. -/
theorem flatten_lossless {text : String} {d : Document} (hparse : parse text = .ok d)
    (hclear : d.Clear) :
    d.flatten.entries.length = d.scalars.length ∧
    (d.scalars.map (·.1)).Nodup ∧
    (∀ place x, (place, x) ∈ d.scalars ↔ d.get? place = some x ∧ x.scalarText?.isSome) ∧
    (∀ place x place' x', (place, x) ∈ d.scalars → (place', x') ∈ d.scalars →
      writtenPath place = writtenPath place' → place = place') ∧
    (∀ place x, (place, x) ∈ d.scalars → d.flatten.get? (writtenPath place) = x.scalarText?) ∧
    (text.length < Text.Decimal.bound64 → ∀ place x, (place, x) ∈ d.scalars →
      Path.ofText? (writtenPath place) = some place ∧ d.at? (writtenPath place) = some x) := by
  obtain ⟨entries, rfl, hd⟩ := exists_object_of_parse hparse
  have hget {place : Path} {x : Document} (h : (place, x) ∈ (object entries).scalars) :
      (object entries).get? place = some x := ((mem_scalars_iff hd).mp h).1
  refine ⟨?_, nodup_scalars hd, fun place x ↦ mem_scalars_iff hd, ?_, ?_, ?_⟩
  · rw [(hclear.perm_flatten hd).length_eq, List.length_map]
  · intro place x place' x' hx hx' heq
    exact hclear.eq_of_writtenPath_eq (hget hx) (hget hx') heq
  · intro place x hx
    obtain ⟨leaf, hleaf⟩ := Option.isSome_iff_exists.mp (isSome_of_mem_scalars hx)
    rw [hleaf, get?_flatten_eq_some_iff hclear hd]
    refine ⟨place, dotted_writtenPath (hclear.fromObject_of_get? (hget hx)), ?_⟩
    rw [leafAt?, hget hx]
    exact hleaf
  · intro hlength place x hx
    have hplain : Plain (.object entries) :=
      { hclear with indexed := indexed_of_parse hparse hlength }
    have hfrom : place.FromObject := hclear.fromObject_of_get? (hget hx)
    have hpath : Path.ofText? (writtenPath place) = some place :=
      Path.ofText?_of_dotted hfrom (hplain.writable_of_get? .self (hget hx))
        (dotted_writtenPath hfrom)
    refine ⟨hpath, ?_⟩
    rw [at?, hpath]
    exact hget hx

/-- An array in an array, a null, an empty key below the root and one with a closing bracket. -/
theorem flatten_lossless_nested :
    let d : Document :=
      .object [("a", .object [("", .array [.array [.null], .object [("]0", .bool true)]])])]
    d.flatten.entries.length = 2 ∧
      d.at? (writtenPath [.key "a", .key "", .index 1, .key "]0"]) = some (.bool true) := by
  intro d
  have hparse : parse "\x7b\"a\":\x7b\"\":[[null],\x7b\"]0\":true\x7d]\x7d\x7d" = .ok d := by cbv
  have hclear : d.Clear := by
    have hnull {x : Document} : Part x .null ↔ x = .null := part_iff_of_scalar rfl
    have htrue {x : Document} : Part x (.bool true) ↔ x = .bool true := part_iff_of_scalar rfl
    refine ⟨?_, ?_⟩
    · simp [d, hnull, htrue]
    · simp [d]
  obtain ⟨hlength, -, hmem, -, -, hat⟩ := flatten_lossless hparse hclear
  refine ⟨hlength, ?_⟩
  have hplace := (hmem [.key "a", .key "", .index 1, .key "]0"] (.bool true)).mpr ⟨rfl, rfl⟩
  exact (hat (by decide) _ _ hplace).2

end Dialogue.Document
