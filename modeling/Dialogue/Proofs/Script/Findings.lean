import Dialogue.Proofs.Script.Dangling
import Dialogue.Proofs.Script.Reading

/-!
# What is listed as dangling

Each link that leads nowhere is listed once: the nodes in the order in which their ids first appear
in the text, and of one node the next link before the choices, these by index. A choice without a
target is a link, and leads nowhere unless some node has the empty id.
-/

namespace Dialogue.Script

open Document (UpToScalar)

/-- A link of a node to an id that no node has. An empty `next` is no link. -/
structure Broken (s : Script) (d : Dangling) : Prop where
  missing : ∀ n ∈ s.nodes, n.id ≠ d.target
  link : ∃ n ∈ s.nodes, n.id = d.source ∧
    match d.link with
    | .next => n.next ≠ "" ∧ n.next = d.target
    | .choice i => ∃ choice, n.choices[i]? = some choice ∧ choice.next = d.target

/-- The place of a link among those of its node. -/
def Link.place : Link → Nat
  | .next => 0
  | .choice i => i + 1

/-- By the first appearance of the source in a list of ids, then by the place of the link. -/
def Dangling.Before (ids : List String) (d d' : Dangling) : Prop :=
  ids.idxOf d.source < ids.idxOf d'.source ∨
    d.source = d'.source ∧ d.link.place < d'.link.place

theorem Dangling.Before.ne {ids : List String} {d d' : Dangling} (h : Before ids d d') :
    d ≠ d' := by
  rintro rfl
  rcases h with h | ⟨-, h⟩ <;> exact Nat.lt_irrefl _ h

/-! ## Which links -/

theorem mem_dangling_iff_broken {s : Script} {d : Dangling} : d ∈ s.dangling ↔ s.Broken d := by
  obtain ⟨source, link, target⟩ := d
  have hmissing : ¬s.contains target ↔ ∀ n ∈ s.nodes, n.id ≠ target := by
    rw [contains_iff, List.mem_map]
    simp
  rw [mem_dangling_iff]
  constructor
  · rintro ⟨n, hnode, hlink, htarget⟩
    obtain ⟨hn, hid⟩ := node?_eq_some_iff.mp hnode
    refine ⟨hmissing.mp htarget, n, hn, hid, ?_⟩
    cases link with
    | next => simpa [Node.hasNext] using Node.mem_links_next_iff.mp hlink
    | choice i => exact Node.mem_links_choice_iff.mp hlink
  · rintro ⟨htarget, n, hn, hid, hlink⟩
    refine ⟨n, node?_eq_some_iff.mpr ⟨hn, hid⟩, ?_, hmissing.mpr htarget⟩
    cases link with
    | next => exact Node.mem_links_next_iff.mpr (by simpa [Node.hasNext] using hlink)
    | choice i => exact Node.mem_links_choice_iff.mpr hlink

/-! ## In which order -/

theorem pairwise_place_links (n : Node) :
    n.links.Pairwise fun l l' ↦ l.1.place < l'.1.place := by
  have hchoices : n.choices.zipIdx.Pairwise fun c c' ↦ c.2 < c'.2 := by
    rw [← List.pairwise_map (f := Prod.snd), List.zipIdx_map_snd]
    exact List.pairwise_lt_range'
  rw [Node.links, List.pairwise_append, List.pairwise_map]
  refine ⟨?_, hchoices.imp fun h ↦ Nat.succ_lt_succ h, ?_⟩
  · split <;> simp
  · intro l hl l' hl'
    obtain ⟨c, -, rfl⟩ := List.mem_map.mp hl'
    have hnext : l = (.next, n.next) := by
      split at hl
      · exact List.mem_singleton.mp hl
      · cases hl
    rw [hnext]
    exact Nat.succ_pos _

theorem pairwise_dangling {s : Script} {ids : List String}
    (h : s.nodes.map Node.id = ids.eraseDups) : s.dangling.Pairwise (Dangling.Before ids) := by
  rw [dangling, List.pairwise_flatMap]
  constructor
  · intro n _
    rw [List.pairwise_map]
    exact ((pairwise_place_links n).filter _).imp fun hplace ↦ .inr ⟨rfl, hplace⟩
  · have hnodes := pairwise_idxOf_eraseDups ids
    rw [← h, List.pairwise_map] at hnodes
    refine hnodes.imp fun hlt d hd d' hd' ↦ ?_
    obtain ⟨l, -, rfl⟩ := List.mem_map.mp hd
    obtain ⟨l', -, rfl⟩ := List.mem_map.mp hd'
    exact .inl hlt

/-- The ids of the nodes are those of the items, each where it first appears. -/
theorem map_id_of_parse {text : String} {s : Script} (h : parse text = .ok s) :
    ∃ d items, Document.parse text = .ok d ∧ UpToScalar (d.entryItems "nodes") items ∧
      s.nodes.map Node.id = (items.map fun item ↦ item.entryText "id").eraseDups := by
  rw [parse] at h
  cases hd : Document.parse text with
  | error e =>
      rw [hd] at h
      cases h
  | ok d =>
      rw [hd] at h
      obtain ⟨items, nodes, hitems, hreads, hscript, -⟩ := ofDocument_reads d
      refine ⟨d, items, rfl, hitems, ?_⟩
      rw [← Except.ok.inj h, hscript, map_id_ofNodes, map_id_of_reads hreads]

end Dialogue.Script
