import Dialogue.Proofs.Script.Nodes

/-!
# Dangling links

What is listed as dangling are the links of the nodes that are found under an id, where no node is
found under the target.
-/

namespace Dialogue

/-! ## Links -/

theorem Node.mem_links_next_iff {n : Node} {x : String} :
    (.next, x) ∈ n.links ↔ n.hasNext ∧ n.next = x := by
  rw [links]
  by_cases h : n.hasNext <;> simp [h, eq_comm]

theorem Node.mem_links_choice_iff {n : Node} {i : Nat} {x : String} :
    (.choice i, x) ∈ n.links ↔ ∃ choice, n.choices[i]? = some choice ∧ choice.next = x := by
  have hnext : (Script.Link.choice i, x) ∉ if n.hasNext then [(.next, n.next)] else [] := by
    by_cases h : n.hasNext <;> simp [h]
  rw [links, List.mem_append, or_iff_right hnext, List.mem_map]
  constructor
  · rintro ⟨⟨choice, j⟩, hmem, heq⟩
    cases heq
    exact ⟨choice, List.mk_mem_zipIdx_iff_getElem?.mp hmem, rfl⟩
  · rintro ⟨choice, hchoice, rfl⟩
    exact ⟨(choice, i), List.mk_mem_zipIdx_iff_getElem?.mpr hchoice, rfl⟩

theorem Script.mem_dangling_iff {s : Script} {source x : String} {link : Link} :
    ⟨source, link, x⟩ ∈ s.dangling ↔
      ∃ n, s.node? source = some n ∧ (link, x) ∈ n.links ∧ ¬s.contains x := by
  rw [dangling, List.mem_flatMap]
  constructor
  · rintro ⟨n, hn, hmem⟩
    obtain ⟨l, hl, heq⟩ := List.mem_map.mp hmem
    cases heq
    obtain ⟨hlinks, hmissing⟩ := List.mem_filter.mp hl
    exact ⟨n, node?_eq_some_iff.mpr ⟨hn, rfl⟩, hlinks, by simpa using hmissing⟩
  · rintro ⟨n, hnode, hlinks, hmissing⟩
    obtain ⟨hn, rfl⟩ := node?_eq_some_iff.mp hnode
    have hl : (link, x) ∈ n.links.filter fun l ↦ !s.contains l.2 :=
      List.mem_filter.mpr ⟨hlinks, by simpa using hmissing⟩
    exact ⟨n, hn, List.mem_map.mpr ⟨_, hl, rfl⟩⟩

@[simp] theorem Script.dangling_empty : Script.empty.dangling = [] := rfl

end Dialogue
