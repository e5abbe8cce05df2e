import Dialogue.Proofs.Keyed
import Dialogue.Script

/-!
# The nodes of a script

A node of a script is found under its own id and under no other, because no id repeats. A script
that is made from a list of nodes has the ids of the list in the order in which they first appear,
and under each of them the last node of the list that has it.
-/

namespace Dialogue.Script

theorem node?_eq_some_iff {s : Script} {id : String} {n : Node} :
    s.node? id = some n ↔ n ∈ s.nodes ∧ n.id = id :=
  find?_key_eq_some_iff s.nodup_ids

theorem exists_node?_of_contains {s : Script} {id : String} (h : s.contains id) :
    ∃ n ∈ s.nodes, n.id = id ∧ s.node? id = some n := by
  obtain ⟨n, hn⟩ := Option.isSome_iff_exists.mp h
  obtain ⟨hmem, hid⟩ := node?_eq_some_iff.mp hn
  exact ⟨n, hmem, hid, hn⟩

/-! ## Inserting one after another -/

/-- A new id goes to the end. -/
theorem map_id_insert {s : Script} {ids : List String} (h : s.nodes.map Node.id = ids.eraseDups)
    (n : Node) : (s.insert n).nodes.map Node.id = (ids ++ [n.id]).eraseDups := by
  rw [insert, map_id_put, h, eraseDups_concat]
  simp only [List.mem_eraseDups]

/-- The last node that was inserted is found first. -/
theorem node?_insert_eq {s : Script} {ns : List Node} {id : String}
    (h : s.node? id = ns.reverse.find? (·.id = id)) (n : Node) :
    (s.insert n).node? id = (ns ++ [n]).reverse.find? (·.id = id) := by
  rw [node?_insert, h, List.reverse_concat, List.find?_cons]
  by_cases hid : n.id = id <;> simp [hid]

theorem nodes_foldl_insert (s : Script) (ns : List Node) :
    (ns.foldl insert s).nodes = ns.foldl (fun nodes n ↦ put n nodes) s.nodes := by
  induction ns generalizing s with
  | nil => rfl
  | cons n ns ih => exact ih (s.insert n)

theorem entry_foldl_insert (s : Script) (ns : List Node) :
    (ns.foldl insert s).entry = s.entry := by
  induction ns generalizing s with
  | nil => rfl
  | cons n ns ih => exact ih (s.insert n)

theorem map_id_foldl_insert (ns : List Node) :
    (ns.foldl insert empty).nodes.map Node.id = (ns.map Node.id).eraseDups := by
  induction ns using List.reverseRecOn with
  | nil => rfl
  | append_singleton ns n ih =>
      rw [List.foldl_concat, map_id_insert ih, List.map_append, List.map_singleton]

theorem node?_foldl_insert (ns : List Node) (id : String) :
    (ns.foldl insert empty).node? id = ns.reverse.find? (·.id = id) := by
  induction ns using List.reverseRecOn with
  | nil => rfl
  | append_singleton ns n ih =>
      rw [List.foldl_concat, node?_insert_eq ih]

/-! ## The script of a list

It starts with the first node, which may be the entry, and inserts the others. -/

/-- The id of the first node, unless it is empty. -/
def entryOf (ns : List Node) : Option String :=
  match ns.head? with
  | some n => if n.id = "" then none else some n.id
  | none => none

theorem nodes_ofNodes (ns : List Node) : (ofNodes ns).nodes = (ns.foldl insert empty).nodes := by
  cases ns with
  | nil => rfl
  | cons n ns => rw [ofNodes, List.foldl_cons, nodes_foldl_insert, nodes_foldl_insert]; rfl

theorem entry_ofNodes (ns : List Node) : (ofNodes ns).entry = entryOf ns := by
  cases ns with
  | nil => rfl
  | cons n ns => exact entry_foldl_insert (start n) ns

theorem map_id_ofNodes (ns : List Node) :
    (ofNodes ns).nodes.map Node.id = (ns.map Node.id).eraseDups := by
  rw [nodes_ofNodes, map_id_foldl_insert]

theorem node?_ofNodes (ns : List Node) (id : String) :
    (ofNodes ns).node? id = ns.reverse.find? (·.id = id) := by
  rw [← node?_foldl_insert, node?, node?, nodes_ofNodes]

/-- Each node of the script is the last one of the list with its id. -/
theorem find?_reverse_of_mem_ofNodes {ns : List Node} {n : Node} (h : n ∈ (ofNodes ns).nodes) :
    ns.reverse.find? (·.id = n.id) = some n := by
  rw [← node?_ofNodes]
  exact node?_eq_some_iff.mpr ⟨h, rfl⟩

end Dialogue.Script
