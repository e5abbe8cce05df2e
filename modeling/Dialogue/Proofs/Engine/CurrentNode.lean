import Dialogue.Proofs.Engine.Links
import Dialogue.Proofs.Script.Reading

/-!
# Without a current node

Moving, installing a script and saving all take the empty id for no current node. Looking up the
current node does not: an item of a script that has no id is read as a node with the empty id, and
such a node is shown and played from although no node is current. Nothing else gets in the way, so
an engine with the empty id shows no node exactly if every node of its script has an id.
-/

namespace Dialogue

/-! ## Scripts whose nodes have ids -/

def Script.Named (s : Script) : Prop := ∀ n ∈ s.nodes, n.id ≠ ""

namespace Script

theorem named_iff {s : Script} : s.Named ↔ ¬s.contains "" := by
  rw [contains_iff, Named, List.mem_map]
  constructor
  · rintro h ⟨n, hn, hid⟩
    exact h n hn hid
  · intro h n hn hid
    exact h ⟨n, hn, hid⟩

theorem named_empty : Script.empty.Named := fun _ hn ↦ nomatch hn

theorem named_ofNodes_iff {ns : List Node} : (ofNodes ns).Named ↔ "" ∉ ns.map Node.id := by
  rw [named_iff, contains_iff, map_id_ofNodes, List.mem_eraseDups]

end Script

namespace Engine

variable {e : Engine}

/-! ## What is shown and refused -/

/-- What an engine shows, and what it refuses, where it has no current node. -/
structure ShowsNoNode (e : Engine) : Prop where
  currentNode? : e.currentNode? = none
  cues : e.cues = []
  advance : e.advance.result = .error .noCurrentNode
  choose : ∀ i, (e.choose i).result = .error .noCurrentNode

theorem showsNoNode_of_currentNode? (hready : e.ready) (h : e.currentNode? = none) :
    ShowsNoNode e where
  currentNode? := h
  cues := by rw [cues, h]; rfl
  advance := by rw [advance, if_neg (by simpa using hready), h]; rfl
  choose i := by rw [choose, if_neg (by simpa using hready), h]; rfl

theorem showsNoNode_iff_named (hready : e.ready) (hcurrent : e.currentId = "") :
    ShowsNoNode e ↔ e.script.Named := by
  have hid : e.state.current = "" := by rwa [currentId, if_pos hready] at hcurrent
  have hnode : e.currentNode? = none ↔ e.script.Named := by
    rw [currentNode?_of_ready hready, hid, Script.named_iff, Script.contains]
    simp
  constructor
  · intro h
    exact hnode.mp h.currentNode?
  · intro h
    exact showsNoNode_of_currentNode? hready (hnode.mpr h)

/-- Where the current id is empty, a ready engine shows no node, plays no cue and follows no link
exactly if every node of its script has an id. So it is along every run that loads only such
scripts, and a text gives such a script exactly if each item of its `nodes`, up to the last one that
holds a scalar, has an id that is not empty. -/
theorem showsNoNode_of_empty_iff (e : Engine) :
    (e.ready → e.currentId = "" → (ShowsNoNode e ↔ e.script.Named)) ∧
    (∀ requests : List Request, e.script.Named →
      (∀ r ∈ requests, ∀ s ∈ r.2.script? r.1, s.Named) →
      (service.after e requests).ready → (service.after e requests).currentId = "" →
      ShowsNoNode (service.after e requests)) ∧
    ∀ text d, Document.parse text = .ok d → ∃ script kept,
      Script.parse text = .ok script ∧ Document.UpToScalar (d.entryItems "nodes") kept ∧
      (script.Named ↔ ∀ item ∈ kept, item.entryText "id" ≠ "") := by
  refine ⟨showsNoNode_iff_named, ?_, ?_⟩
  · intro requests hnamed hload hready hcurrent
    exact (showsNoNode_iff_named hready hcurrent).mpr
      (script_after Script.named_empty hnamed hload)
  · intro text d hd
    obtain ⟨kept, nodes, hkept, hreads, hscript, -⟩ := Script.ofDocument_reads d
    refine ⟨Script.ofNodes nodes, kept, ?_, hkept, ?_⟩
    · rw [Script.parse, hd, ← hscript]
    · rw [Script.named_ofNodes_iff, Script.map_id_of_reads hreads]
      simp

/-- A restored state without a current node, in an engine whose only node has an id. -/
theorem showsNoNode_of_empty_iff_restored :
    let files : Files := fun _ ↦ .error .notFound
    let e := ((Engine.new {}).init.install (.start { id := "a", music := "m" })).1
    let e' := service.after e
      [(files, .reset), (files, .loadState "\x7b\"history\":[\"a\"]\x7d"), (files, .loadScript "[")]
    e'.state.history = ["a"] ∧ ShowsNoNode e' := by
  intro files e e'
  have hnamed : e.script.Named := by
    intro n hn
    obtain rfl := List.mem_singleton.mp hn
    decide
  have hload : (Script.parse "[").toOption = none := by decide +kernel
  obtain ⟨-, hrun, -⟩ := showsNoNode_of_empty_iff e
  refine ⟨by decide +kernel, hrun _ hnamed ?_ (by decide +kernel) (by decide +kernel)⟩
  simp [Command.script?, hload]

/-- An item without an id is shown and heard although no node is current, and its links are
followed. -/
theorem not_showsNoNode_of_item_without_id :
    let item := "\x7b\"bgm\":\"m\",\"choices\":[\x7b\"text\":\"go\",\"next\":\"b\"\x7d]\x7d"
    let text := "\x7b\"nodes\":[" ++ item ++ ",\x7b\"id\":\"b\"\x7d]\x7d"
    let e := (Engine.new {}).run (fun _ ↦ .error .notFound) [.init, .loadScript text]
    Reachable e ∧ e.ready ∧ e.currentId = "" ∧ ¬ShowsNoNode e ∧
    e.currentNode? = some { music := "m", choices := [{ text := "go", next := "b" }] } ∧
    e.cues = [.music "m" true] ∧ e.advance.result = .error .noNext ∧
    (e.choose 0).result = .ok () := by
  intro item text e
  have hcues : e.cues = [.music "m" true] := by decide +kernel
  have hshows : ¬ShowsNoNode e := by
    intro h
    rw [h.cues] at hcues
    cases hcues
  exact ⟨(Reachable.new {}).run _ _, by decide +kernel, by decide +kernel, hshows,
    by decide +kernel, hcues, by decide +kernel, by decide +kernel⟩

end Engine

end Dialogue
