import Dialogue.Proofs.Engine.Links
import Dialogue.Proofs.Host.Refusal
import Dialogue.Proofs.Host.Snapshot

/-!
# Following links

To follow a link of the current node is to go to its target: the engine does nothing else on the
way, and where the target is missing it fails as going there does. A host is told the target of each
link, so it can go there itself. The readings are neutral in just the cases in which there is no
link to follow, be it that the engine is not ready, that its current id names no node or that the
node has no such link.
-/

namespace Dialogue

/-! ## In the engine -/

namespace Engine

variable {e : Engine} {n : Node}

theorem choose_eq_goto (hn : e.currentNode? = some n) {index : Nat} {choice : Choice}
    (hchoice : n.choices[index]? = some choice) : e.choose index = e.goto choice.next := by
  have hready : e.ready := ready_of_currentNode? hn
  rw [choose, if_neg (by simpa using hready), hn]
  dsimp only
  rw [hchoice]

theorem advance_eq_goto (hn : e.currentNode? = some n) (hnext : n.next ≠ "") :
    e.advance = e.goto n.next := by
  have hready : e.ready := ready_of_currentNode? hn
  have hhas : n.hasNext := by simpa [Node.hasNext] using hnext
  rw [advance, if_neg (by simpa using hready), hn]
  exact if_pos hhas

theorem isOk_choose_of_none {index : Nat}
    (h : e.currentNode?.bind (·.choices[index]?) = none) :
    (e.choose index).result.isOk = false := by
  rw [choose]
  split
  · rfl
  · split
    · rfl
    · next n hn =>
        have hchoice : n.choices[index]? = none := by simpa [hn] using h
        rw [hchoice]
        rfl

theorem isOk_advance_of_next (h : ∀ n, e.currentNode? = some n → n.next = "") :
    e.advance.result.isOk = false := by
  rw [advance]
  split
  · rfl
  · split
    · rfl
    · next n hn =>
        have hnext : ¬n.hasNext := by simp [Node.hasNext, h n hn]
        rw [if_neg hnext]
        rfl

end Engine

/-! ## At the boundary -/

namespace Host

variable {e : Engine} {n : Node} {index : Int32}

theorem call_eq_of_false {c : Call} (h : (call e c).1 = some false) : call e c = (some false, e) :=
  Prod.ext h (call_of_false h)

theorem call_choose_of_not_neg (h : ¬index < 0) :
    call e (.choose index) = report (e.choose index.toInt.toNat) :=
  if_neg h

/-! ### Choices -/

/-- The indices below the count of choices are those of the choices. -/
theorem inRange_iff (hn : e.currentNode? = some n) (hlength : n.choices.length ≤ 0x7FFFFFFF) :
    0 ≤ index ∧ index < choiceCount e ↔ 0 ≤ index.toInt ∧ index.toInt < n.choices.length := by
  rw [Int32.le_iff_toInt_le, Int32.lt_iff_toInt_lt, Int32.toInt_zero,
    (tells_of_currentNode? hn).count hlength]

theorem call_choose_eq_goto (hn : e.currentNode? = some n) (hindex : 0 ≤ index.toInt)
    (hlt : index.toInt < n.choices.length) :
    call e (.choose index) = call e (.goto (choiceNext e index)) := by
  obtain ⟨choice, hchoice⟩ : ∃ choice, n.choices[index.toInt.toNat]? = some choice :=
    ⟨_, List.getElem?_eq_getElem (by omega)⟩
  have hneg : ¬index < 0 := by
    rw [index_neg_iff]
    omega
  rw [((tells_of_currentNode? hn).choiceTexts index choice hindex hchoice).2,
    call_choose_of_not_neg hneg, Engine.choose_eq_goto hn hchoice, call]

theorem call_choose_of_none
    (h : index.toInt < 0 ∨ e.currentNode?.bind (·.choices[index.toInt.toNat]?) = none) :
    call e (.choose index) = (some false, e) := by
  by_cases hneg : index < 0
  · exact call_choose_of_neg e hneg
  · have hnone := h.resolve_left (by rwa [← index_neg_iff])
    apply call_eq_of_false
    rw [call_choose_of_not_neg hneg, report, Engine.isOk_choose_of_none hnone]

/-- Without a current node no index is in range. -/
theorem not_inRange_of_currentNode? (hn : e.currentNode? = none) :
    ¬(0 ≤ index ∧ index < choiceCount e) := by
  rw [Int32.le_iff_toInt_le, Int32.lt_iff_toInt_lt, (neutral_of_currentNode? hn).count]
  omega

/-! ### Next links -/

theorem next_of_nextId (h : nextId e = "") (n : Node) (hn : e.currentNode? = some n) :
    n.next = "" := by
  rwa [(tells_of_currentNode? hn).nextId] at h

theorem exists_currentNode?_of_nextId (h : nextId e ≠ "") : ∃ n, e.currentNode? = some n := by
  cases hn : e.currentNode? with
  | none => exact absurd (neutral_of_currentNode? hn).nextId h
  | some n => exact ⟨n, rfl⟩

/-! ### Both -/

/-- Where the current node, if there is one, has no more choices than can be counted, a call that
follows a link is the call that goes to the target that is told for the link: it answers the same
and leaves the same engine. If there is no such link, because the index is not in the range of the
choices or no next link is told, the call answers `false` and changes nothing. So it is in every
state that calls lead to. In the engine below, following a link and going to its target do not
differ even in their errors and warnings. -/
theorem follow_eq_goto (e : Engine)
    (hlength : ∀ n, e.currentNode? = some n → n.choices.length ≤ 0x7FFFFFFF) :
    (∀ index : Int32,
      (0 ≤ index ∧ index < choiceCount e →
        call e (.choose index) = call e (.goto (choiceNext e index))) ∧
      (¬(0 ≤ index ∧ index < choiceCount e) → call e (.choose index) = (some false, e))) ∧
    (nextId e ≠ "" → call e .advance = call e (.goto (nextId e))) ∧
    (nextId e = "" → call e .advance = (some false, e)) ∧
    ∀ n, e.currentNode? = some n →
      (∀ index choice, n.choices[index]? = some choice → e.choose index = e.goto choice.next) ∧
      (n.next ≠ "" → e.advance = e.goto n.next) := by
  refine ⟨fun index ↦ ⟨?_, ?_⟩, ?_, ?_, fun n hn ↦ ⟨?_, ?_⟩⟩
  · intro hrange
    cases hn : e.currentNode? with
    | none => exact absurd hrange (not_inRange_of_currentNode? hn)
    | some n =>
        obtain ⟨hindex, hlt⟩ := (inRange_iff hn (hlength n hn)).mp hrange
        exact call_choose_eq_goto hn hindex hlt
  · intro hrange
    apply call_choose_of_none
    cases hn : e.currentNode? with
    | none => exact .inr rfl
    | some n =>
        rw [inRange_iff hn (hlength n hn)] at hrange
        rw [Option.bind_some, List.getElem?_eq_none_iff]
        omega
  · intro hnext
    obtain ⟨n, hn⟩ := exists_currentNode?_of_nextId hnext
    rw [(tells_of_currentNode? hn).nextId] at hnext ⊢
    exact congrArg report (Engine.advance_eq_goto hn hnext)
  · intro hnext
    apply call_eq_of_false
    rw [call, report, Engine.isOk_advance_of_next (next_of_nextId hnext)]
  · intro index choice hchoice
    exact Engine.choose_eq_goto hn hchoice
  · intro hnext
    exact Engine.advance_eq_goto hn hnext

/-- A choice that leads on, one that dangles, an empty target, and the indices around them. -/
theorem follow_eq_goto_dangling :
    let choices : List Choice := [{ next := "a" }, { next := "gone" }, {}]
    let e := ((Engine.new {}).init.install (.start { id := "a", choices := choices })).1
    call e (.choose 0) = call e (.goto "a") ∧ (call e (.choose 0)).1 = some true ∧
    call e (.choose 1) = call e (.goto "gone") ∧ call e (.choose 2) = call e (.goto "") ∧
    call e (.choose 3) = (some false, e) ∧ call e (.choose (-1)) = (some false, e) ∧
    call e .advance = (some false, e) := by
  intro choices e
  have hlength : ∀ n, e.currentNode? = some n → n.choices.length ≤ 0x7FFFFFFF := by
    intro n hn
    obtain rfl : { id := "a", choices := choices } = n := Option.some.inj (hn ▸ by decide +kernel)
    decide
  obtain ⟨hchoose, -, hstay, -⟩ := follow_eq_goto e hlength
  exact ⟨(hchoose 0).1 (by decide +kernel), by decide +kernel, (hchoose 1).1 (by decide +kernel),
    (hchoose 2).1 (by decide +kernel), (hchoose 3).2 (by decide +kernel),
    (hchoose (-1)).2 (by decide +kernel), hstay (by decide +kernel)⟩

end Host

end Dialogue
