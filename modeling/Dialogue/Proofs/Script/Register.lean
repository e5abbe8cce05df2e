import Dialogue.Proofs.Script.Nodes
import Dialogue.Proofs.Table
import Dialogue.Script.Reading
import Mathlib.Data.List.Permutation

/-!
# Scripts under insertion

A script may as well be kept as a register, which is a table of nodes by their ids beside a list of
these ids. A register lists its nodes by looking up what is in the list, so an id that the table
lacks would hide a node instead of failing, and nothing in its type rules that out. Insertion keeps
the two parts in step, and with them the register and the script. So no node is hidden, whatever
is inserted, and both tell what was inserted: the ids in the order of their first appearance, and
under each of them the last node that came with it.
-/

namespace Dialogue.Script

/-- A table of nodes by their ids, and the ids in a list of their own. -/
structure Register where
  table : Table Node := .empty
  order : List String := []
  entry : Option String := none
deriving DecidableEq, Repr

namespace Register

def empty : Register := {}

def insert (r : Register) (n : Node) : Register where
  table := r.table.insert n.id n
  order := if r.table.contains n.id then r.order else r.order ++ [n.id]
  entry := r.entry

def size (r : Register) : Nat := r.table.entries.length

def node? (r : Register) (id : String) : Option Node := r.table.get? id

def contains (r : Register) (id : String) : Bool := r.table.contains id

/-- The nodes in order, without the ids that the table lacks. -/
def nodes (r : Register) : List Node := r.order.filterMap r.table.get?

/-- The register of a list of nodes, of which the first is the entry unless its id is empty. -/
def ofNodes (ns : List Node) : Register := ns.foldl insert { entry := entryOf ns }

@[simp] theorem node?_insert (r : Register) (n : Node) (id : String) :
    (r.insert n).node? id = if n.id = id then some n else r.node? id :=
  Table.get?_insert r.table n.id id n

/-! ## A register and its script -/

/-- The list of the register has the ids of the script, and its table the nodes. -/
structure Keeps (r : Register) (s : Script) : Prop where
  order : r.order = s.nodes.map Node.id
  node? : ∀ id, r.node? id = s.node? id
  entry : r.entry = s.entry

theorem keeps_empty : Keeps empty .empty := ⟨rfl, fun _ ↦ rfl, rfl⟩

section Keeps

variable {r : Register} {s : Script}

theorem Keeps.contains (h : Keeps r s) (id : String) : r.contains id = s.contains id :=
  congrArg Option.isSome (h.node? id)

theorem Keeps.insert (h : Keeps r s) (n : Node) : Keeps (r.insert n) (s.insert n) where
  order := by
    have hnew : r.table.contains n.id ↔ n.id ∈ s.nodes.map Node.id := by
      rw [← contains_iff, ← h.contains]
      rfl
    rw [Register.insert, Script.insert, map_id_put, h.order]
    exact if_congr hnew rfl rfl
  node? id := by
    rw [Register.node?_insert, Script.node?_insert, h.node?]
  entry := h.entry

theorem Keeps.foldl_insert (h : Keeps r s) (ns : List Node) :
    Keeps (ns.foldl Register.insert r) (ns.foldl Script.insert s) := by
  induction ns generalizing r s with
  | nil => exact h
  | cons n ns ih => exact ih (h.insert n)

/-- No node of the script is hidden. -/
theorem Keeps.nodes_eq (h : Keeps r s) : r.nodes = s.nodes := by
  have hlookup : r.table.get? = s.node? := funext h.node?
  have hfound : ∀ n ∈ s.nodes, s.node? n.id = some n :=
    fun n hn ↦ node?_eq_some_iff.mpr ⟨hn, rfl⟩
  rw [nodes, h.order, hlookup, List.filterMap_map]
  calc s.nodes.filterMap (s.node? ∘ Node.id)
    _ = s.nodes.filterMap some := List.filterMap_congr hfound
    _ = s.nodes := List.filterMap_some

/-- The table has no more nodes than the list has ids. -/
theorem Keeps.size_eq (h : Keeps r s) : r.size = s.size := by
  have hmem (id : String) : id ∈ r.table.entries.map (·.1) ↔ id ∈ s.nodes.map Node.id := by
    rw [← Table.contains_iff, ← contains_iff, ← h.contains]
    rfl
  have hperm : (r.table.entries.map (·.1)).Perm (s.nodes.map Node.id) :=
    (List.perm_ext_iff_of_nodup r.table.nodup_keys s.nodup_ids).mpr hmem
  have hlength := hperm.length_eq
  rwa [List.length_map, List.length_map] at hlength

end Keeps

theorem keeps_ofNodes (ns : List Node) : Keeps (ofNodes ns) (Script.ofNodes ns) := by
  cases ns with
  | nil => exact keeps_empty
  | cons n ns =>
      have hstart : Keeps (insert { entry := entryOf (n :: ns) } n) (start n) := by
        refine ⟨rfl, fun id ↦ ?_, rfl⟩
        rw [node?_insert, Script.node?, start, List.find?_singleton]
        by_cases h : n.id = id <;> simp [h, node?]
      exact hstart.foldl_insert ns

end Register

/-! ## Growing -/

/-- The script and the register after the insertion of nodes one by one, where the first of them may
have been read from a text. -/
inductive Grown : List Node → Script → Register → Prop
  | empty : Grown [] .empty .empty
  | parse {text : String} {d : Document} {s : Script} (hd : Document.parse text = .ok d)
      (hs : Script.parse text = .ok s) :
      Grown ((d.itemPathsAt [.key "nodes"]).map d.nodeAt) s
        (.ofNodes ((d.itemPathsAt [.key "nodes"]).map d.nodeAt))
  | insert {ns : List Node} {s : Script} {r : Register} (h : Grown ns s r) (n : Node) :
      Grown (ns ++ [n]) (s.insert n) (r.insert n)

theorem parse_eq_ofNodes {text : String} {d : Document} {s : Script}
    (hd : Document.parse text = .ok d) (hs : Script.parse text = .ok s) :
    s = ofNodes ((d.itemPathsAt [.key "nodes"]).map d.nodeAt) := by
  rw [parse, hd] at hs
  exact (Except.ok.inj hs).symm

section Grown

variable {inserted : List Node} {s : Script} {r : Register}

theorem Grown.foldl_insert (h : Grown inserted s r) (ns : List Node) :
    Grown (inserted ++ ns) (ns.foldl Script.insert s) (ns.foldl Register.insert r) := by
  induction ns generalizing inserted s r with
  | nil => rwa [List.append_nil]
  | cons n ns ih => simpa using ih (h.insert n)

theorem Grown.keeps (h : Grown inserted s r) : r.Keeps s := by
  induction h with
  | empty => exact Register.keeps_empty
  | parse hd hs => exact parse_eq_ofNodes hd hs ▸ Register.keeps_ofNodes _
  | insert _ n ih => exact ih.insert n

theorem Grown.map_id (h : Grown inserted s r) :
    s.nodes.map Node.id = (inserted.map Node.id).eraseDups := by
  induction h with
  | empty => rfl
  | parse hd hs => rw [parse_eq_ofNodes hd hs, map_id_ofNodes]
  | insert _ n ih =>
      rw [map_id_insert ih, List.map_append, List.map_singleton]

theorem Grown.node?_eq (h : Grown inserted s r) (id : String) :
    s.node? id = inserted.reverse.find? (·.id = id) := by
  induction h with
  | empty => rfl
  | parse hd hs => rw [parse_eq_ofNodes hd hs, node?_ofNodes]
  | insert _ n ih => exact node?_insert_eq ih n

/-- Under an id stands the last node that was inserted with it. -/
theorem Grown.node?_eq_some_iff (h : Grown inserted s r) {id : String} {n : Node} :
    s.node? id = some n ↔ n.id = id ∧
      ∃ before after, inserted = before ++ n :: after ∧ ∀ m ∈ after, m.id ≠ id := by
  rw [h.node?_eq, find?_reverse_eq_some_iff]
  simp

/-- However a script came about by insertion, from no nodes or from those of a text, it lists as
many nodes as it has, with distinct ids, in the order in which the ids were first inserted. A node
is found under the ids that are listed and under no other, and it is the last node that was inserted
with that id. The entry, if there is one, is the id of a node, and no insertion changes it. Kept as
a register, it is the same script, for the table and the list of ids never differ. -/
theorem nodes_of_grown (h : Grown inserted s r) :
    s.nodes.length = s.size ∧ (s.nodes.map Node.id).Nodup ∧
    s.nodes.map Node.id = (inserted.map Node.id).eraseDups ∧
    (s.nodes.Pairwise fun n n' ↦
      (inserted.map Node.id).idxOf n.id < (inserted.map Node.id).idxOf n'.id) ∧
    (∀ id, (s.contains id ↔ (s.node? id).isSome) ∧ (s.contains id ↔ ∃ n ∈ s.nodes, n.id = id)) ∧
    (∀ id n, s.node? id = some n ↔ n.id = id ∧
      ∃ before after, inserted = before ++ n :: after ∧ ∀ m ∈ after, m.id ≠ id) ∧
    (∀ id ∈ s.entry, ∃ n ∈ s.nodes, n.id = id) ∧
    (∀ ns : List Node, (ns.foldl Script.insert s).entry = s.entry) ∧
    r.order = s.nodes.map Node.id ∧ r.nodes = s.nodes ∧ r.size = s.size ∧
    (∀ id, r.node? id = s.node? id ∧ r.contains id = s.contains id) ∧ r.entry = s.entry := by
  have hkeeps : r.Keeps s := h.keeps
  have hlisted (id : String) : s.contains id ↔ ∃ n ∈ s.nodes, n.id = id := by
    rw [contains_iff, List.mem_map]
  refine ⟨rfl, h.map_id ▸ nodup_eraseDups _, h.map_id, ?_, fun id ↦ ⟨Iff.rfl, hlisted id⟩,
    fun id n ↦ h.node?_eq_some_iff, ?_, entry_foldl_insert s, hkeeps.order, hkeeps.nodes_eq,
    hkeeps.size_eq, fun id ↦ ⟨hkeeps.node? id, hkeeps.contains id⟩, hkeeps.entry⟩
  · rw [← List.pairwise_map (R := fun id id' ↦
      (inserted.map Node.id).idxOf id < (inserted.map Node.id).idxOf id'), h.map_id]
    exact pairwise_idxOf_eraseDups _
  · intro id hid
    exact (hlisted id).mp (contains_iff.mpr (s.entry_mem id hid))

/-- A node that replaces one of the text, after a new one without an id. -/
theorem nodes_of_grown_replaced :
    ∃ s r, Grown [{ id := "a" }, { id := "b" }, {}, { id := "a", text := "again" }] s r ∧
      s.nodes = [{ id := "a", text := "again" }, { id := "b" }, {}] ∧
      s.entry = some "a" ∧ r.nodes = s.nodes ∧ r.size = 3 := by
  let d : Document := .object [("nodes", .array [.object [("id", .string "a")],
    .object [("id", .string "b")]])]
  have hd : Document.parse
      "\x7b\"nodes\":[\x7b\"id\":\"a\"\x7d,\x7b\"id\":\"b\"\x7d]\x7d" = .ok d := by
    cbv
  have hs : Script.parse
      "\x7b\"nodes\":[\x7b\"id\":\"a\"\x7d,\x7b\"id\":\"b\"\x7d]\x7d" = .ok (ofDocument d) := by
    rw [parse, hd]
  have hgrown := (Grown.parse hd hs).foldl_insert [{}, { id := "a", text := "again" }]
  have hnodes : (d.itemPathsAt [.key "nodes"]).map d.nodeAt = [{ id := "a" }, { id := "b" }] := by
    decide +kernel
  rw [hnodes] at hgrown
  obtain ⟨-, -, -, -, -, -, -, -, -, hregister, hsize, -⟩ := nodes_of_grown hgrown
  have hlisted : (ofDocument d).nodes = [{ id := "a" }, { id := "b" }] := by
    decide +kernel
  refine ⟨_, _, hgrown, ?_, ?_, hregister, ?_⟩
  · rw [nodes_foldl_insert, hlisted]
    decide
  · rw [entry_foldl_insert]
    decide +kernel
  · rw [hsize, size, nodes_foldl_insert, hlisted]
    decide

end Grown

end Dialogue.Script
