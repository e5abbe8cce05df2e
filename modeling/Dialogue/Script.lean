import Dialogue.Node

/-! # Scripts

A script is a list of nodes with distinct ids, in the order in which the ids first appeared, and
the id of the node where play starts, if it names one. Links may lead to ids that the script does
not have; `dangling` lists those. -/

namespace Dialogue

namespace Script

/-- Adds a node to a list, in the place of the node with the same id if there is one. -/
def put (node : Node) : List Node → List Node
  | [] => [node]
  | n :: ns => if n.id = node.id then node :: ns else n :: put node ns

theorem map_id_put (node : Node) (ns : List Node) :
    (put node ns).map Node.id =
      if node.id ∈ ns.map Node.id then ns.map Node.id else ns.map Node.id ++ [node.id] := by
  induction ns with
  | nil => simp [put]
  | cons n ns ih =>
      by_cases h : n.id = node.id
      · simp [put, h]
      · rw [put, if_neg h, List.map_cons, ih, List.map_cons]
        by_cases hm : node.id ∈ ns.map Node.id
        · rw [if_pos hm, if_pos (List.mem_cons_of_mem _ hm)]
        · rw [if_neg hm, if_neg (List.not_mem_cons_of_ne_of_not_mem (Ne.symm h) hm),
            List.cons_append]

theorem nodup_put {node : Node} {ns : List Node} (h : (ns.map Node.id).Nodup) :
    ((put node ns).map Node.id).Nodup := by
  rw [map_id_put]
  split
  · exact h
  · next hm => exact List.nodup_append.2 ⟨h, by simp, by grind⟩

theorem mem_put {node : Node} {ns : List Node} {id : String} (h : id ∈ ns.map Node.id) :
    id ∈ (put node ns).map Node.id := by
  rw [map_id_put]
  split
  · exact h
  · exact List.mem_append_left _ h

theorem find?_put (node : Node) (ns : List Node) (id : String) :
    (put node ns).find? (·.id = id) =
      if node.id = id then some node else ns.find? (·.id = id) := by
  fun_induction put node ns with
  | case1 => by_cases h : node.id = id <;> simp [h]
  | case2 n ns hn => by_cases h : node.id = id <;> simp [h, hn]
  | case3 n ns hn ih =>
      rw [List.find?_cons, ih, List.find?_cons]
      by_cases h : n.id = id
      · simp [h, show node.id ≠ id from fun e => hn (h.trans e.symm)]
      · simp [h]

end Script

structure Script where
  nodes : List Node := []
  entry : Option String := none
  nodup_ids : (nodes.map Node.id).Nodup := by simp
  entry_mem : ∀ id ∈ entry, id ∈ nodes.map Node.id := by simp
deriving DecidableEq, Repr

namespace Script

def empty : Script := {}

instance : Inhabited Script := ⟨empty⟩

def size (s : Script) : Nat := s.nodes.length

def node? (s : Script) (id : String) : Option Node := s.nodes.find? (·.id = id)

def contains (s : Script) (id : String) : Bool := (s.node? id).isSome

def insert (s : Script) (node : Node) : Script where
  nodes := put node s.nodes
  entry := s.entry
  nodup_ids := nodup_put s.nodup_ids
  entry_mem id h := mem_put (s.entry_mem id h)

@[simp] theorem node?_insert (s : Script) (node : Node) (id : String) :
    (s.insert node).node? id = if node.id = id then some node else s.node? id :=
  find?_put node s.nodes id

theorem contains_iff {s : Script} {id : String} : s.contains id ↔ id ∈ s.nodes.map Node.id := by
  simp [contains, node?]

/-- The script of one node, which is the entry unless its id is empty. -/
def start (node : Node) : Script where
  nodes := [node]
  entry := if node.id = "" then none else some node.id
  nodup_ids := by simp
  entry_mem := by simp

/-- The script that starts with the first node of a list and contains them all. -/
def ofNodes : List Node → Script
  | [] => empty
  | n :: ns => ns.foldl insert (start n)

/-! ## Dangling links -/

/-- Which link of a node is meant. -/
inductive Link where
  | next
  | choice (i : Nat)
deriving DecidableEq, Repr

/-- A link of the node `source` to an id that no node has. -/
structure Dangling where
  source : String
  link : Link
  target : String
deriving DecidableEq, Repr

def Dangling.message (d : Dangling) : String :=
  match d.link with
  | .next =>
      "node '" ++ d.source ++ "' next points at missing node '" ++ d.target ++ "'"
  | .choice i =>
      "node '" ++ d.source ++ "' choice " ++ i.repr ++ " points at missing node '" ++ d.target ++
        "'"

end Script

/-- The links of a node with their targets. An empty `next` is no link, and an empty target of a
choice is one. -/
def Node.links (n : Node) : List (Script.Link × String) :=
  (if n.hasNext then [(.next, n.next)] else []) ++
    n.choices.zipIdx.map fun (c, i) => (.choice i, c.next)

/-- The links that lead nowhere, node by node in the order of the script. -/
def Script.dangling (s : Script) : List Script.Dangling :=
  s.nodes.flatMap fun n =>
    (n.links.filter fun l => !s.contains l.2).map fun l => ⟨n.id, l.1, l.2⟩

end Dialogue
