import Dialogue.Proofs.Engine.Refusal
import Dialogue.Proofs.Script.Dangling

/-!
# Dangling links along a run

Following a link leads to an unknown node exactly if the script lists that link of the current node
as dangling. Commands other than those that load scripts keep the script or drop it, so a run that
loads no dangling link meets none.
-/

namespace Dialogue.Engine

variable {files : Files} {e : Engine}

/-! ## Following a link -/

theorem goto_unknownNode_iff (hready : e.ready) {id x : String} :
    (e.goto id).result = .error (.unknownNode x) ↔ id = x ∧ ¬e.script.contains x := by
  rw [goto, if_neg (by simpa using hready)]
  constructor
  · intro h
    split at h
    · cases h
    · next hmissing =>
        cases h
        exact ⟨rfl, hmissing⟩
  · rintro ⟨rfl, hmissing⟩
    rw [if_neg hmissing]
    rfl

theorem currentNode?_of_ready (hready : e.ready) :
    e.currentNode? = e.script.node? e.state.current :=
  if_pos hready

theorem ready_of_currentNode? {n : Node} (h : e.currentNode? = some n) : e.ready := by
  rw [currentNode?] at h
  split at h
  · next hready => exact hready
  · cases h

theorem id_of_currentNode? {n : Node} (h : e.currentNode? = some n) : n.id = e.state.current := by
  rw [currentNode?_of_ready (ready_of_currentNode? h)] at h
  exact (Script.node?_eq_some_iff.mp h).2

/-- Without a current node there is nothing to follow, and nothing is listed for its id. -/
theorem advance_unknownNode_iff {x : String} :
    e.advance.result = .error (.unknownNode x) ↔
      e.ready ∧ ⟨e.state.current, .next, x⟩ ∈ e.script.dangling := by
  rw [Script.mem_dangling_iff, advance]
  by_cases hready : e.ready
  · rw [if_neg (by simpa using hready), currentNode?_of_ready hready]
    cases hnode : e.script.node? e.state.current with
    | none => simp [hready, Outcome.failed]
    | some n =>
        by_cases hnext : n.hasNext
        · simp [hready, hnext, goto_unknownNode_iff hready, Node.mem_links_next_iff]
        · simp [hready, hnext, Node.mem_links_next_iff, Outcome.failed]
  · simp [hready, Outcome.failed]

theorem choose_unknownNode_iff {i : Nat} {x : String} :
    (e.choose i).result = .error (.unknownNode x) ↔
      e.ready ∧ ⟨e.state.current, .choice i, x⟩ ∈ e.script.dangling := by
  rw [Script.mem_dangling_iff, choose]
  by_cases hready : e.ready
  · rw [if_neg (by simpa using hready), currentNode?_of_ready hready]
    cases hnode : e.script.node? e.state.current with
    | none => simp [hready, Outcome.failed]
    | some n =>
        cases hchoice : n.choices[i]? with
        | none => simp [hready, hchoice, Node.mem_links_choice_iff, Outcome.failed]
        | some choice =>
            simp [hready, hchoice, goto_unknownNode_iff hready, Node.mem_links_choice_iff]
  · simp [hready, Outcome.failed]

/-! ## Scripts along a run -/

/-- The script that a command loads, if it loads one. -/
def Command.script? (files : Files) : Command → Option Script
  | .loadScript text => (Script.parse text).toOption
  | .loadScriptFile path => (Script.load files path).toOption
  | _ => none

theorem script_of_effect {e' : Engine} {c : Command} (h : Effect files e c e') :
    e'.script = e.script ∨ e'.script = .empty ∨ c.script? files = some e'.script := by
  cases h with
  | init => exact .inl rfl
  | shutdown =>
      rw [shutdown]
      split
      · exact .inr (.inl rfl)
      · exact .inl rfl
  | loadScript _ hscript => exact .inr (.inr (by rw [Command.script?, hscript]; rfl))
  | loadScriptFile _ hscript => exact .inr (.inr (by rw [Command.script?, hscript]; rfl))
  | loadState _ _ => exact .inl rfl
  | goto hmoves => exact .inl hmoves.script_eq
  | choose _ _ hmoves => exact .inl hmoves.script_eq
  | advance _ _ hmoves => exact .inl hmoves.script_eq
  | back _ _ => exact .inl rfl
  | setVariable _ => exact .inl rfl
  | reset _ => exact .inl rfl

/-- What holds of the empty script and of every script that is loaded is kept. -/
theorem script_perform {P : Script → Prop} (hempty : P .empty) {c : Command} (h : P e.script)
    (hload : ∀ s ∈ c.script? files, P s) : P (e.perform files c).engine.script := by
  refine (perform_atomic files e c).holds (I := fun e ↦ P e.script) h fun e' heffect ↦ ?_
  rcases script_of_effect heffect with hscript | hscript | hscript
  · rw [hscript]
    exact h
  · rw [hscript]
    exact hempty
  · exact hload _ hscript

theorem script_after {P : Script → Prop} (hempty : P .empty) {requests : List Request}
    (h : P e.script) (hload : ∀ r ∈ requests, ∀ s ∈ r.2.script? r.1, P s) :
    P (service.after e requests).script := by
  -- The engine moves with the requests, and what holds of its script is kept.
  induction requests generalizing e with
  | nil => exact h
  | cons r requests ih =>
      obtain ⟨hr, hrequests⟩ := List.forall_mem_cons.mp hload
      exact ih (script_perform hempty h hr) hrequests

theorem dangling_after {requests : List Request} (h : e.script.dangling = [])
    (hload : ∀ r ∈ requests, ∀ s ∈ r.2.script? r.1, s.dangling = []) :
    (service.after e requests).script.dangling = [] :=
  script_after (P := fun s ↦ s.dangling = []) Script.dangling_empty h hload

theorem mapError_ne_unknownNode {o : Outcome NavigationError} {x : String}
    (h : o.result ≠ .error (.unknownNode x)) :
    (o.mapError EngineError.navigation).result ≠ .error (.navigation (.unknownNode x)) := by
  rw [Outcome.mapError]
  cases hresult : o.result with
  | ok =>
      intro heq
      cases heq
  | error error =>
      intro heq
      injection heq with heq
      injection heq with heq
      exact h (heq ▸ hresult)

/-- Where the script has no dangling link, no link leads to an unknown node. -/
theorem ne_unknownNode_of_dangling (h : e.script.dangling = []) (x : String) :
    e.advance.result ≠ .error (.unknownNode x) ∧
      ∀ i, (e.choose i).result ≠ .error (.unknownNode x) := by
  refine ⟨fun hadvance ↦ ?_, fun i hchoose ↦ ?_⟩
  · simpa [h] using (advance_unknownNode_iff.mp hadvance).2
  · simpa [h] using (choose_unknownNode_iff.mp hchoose).2

/-- For a current node `n`, following its next link leads to the unknown node `x` exactly if the
script lists that link as dangling, and so for each of its choices. So where the script has no
dangling link, following links never leads to an unknown node, and neither does it along a run that
loads no dangling link, whatever states are restored on the way. This needs no run to reach the
engine: that no id of a script repeats is part of being a script. -/
theorem unknownNode_iff_dangling (e : Engine) :
    (∀ n, e.currentNode? = some n →
      (∀ x, e.advance.result = .error (.unknownNode x) ↔
        ⟨n.id, .next, x⟩ ∈ e.script.dangling) ∧
      ∀ i x, (e.choose i).result = .error (.unknownNode x) ↔
        ⟨n.id, .choice i, x⟩ ∈ e.script.dangling) ∧
    (e.script.dangling = [] → ∀ x, e.advance.result ≠ .error (.unknownNode x) ∧
      ∀ i, (e.choose i).result ≠ .error (.unknownNode x)) ∧
    ∀ requests : List Request, e.script.dangling = [] →
      (∀ r ∈ requests, ∀ s ∈ r.2.script? r.1, s.dangling = []) →
      ∀ entry ∈ service.log e requests,
        (entry.request.2 = .advance ∨ ∃ i, entry.request.2 = .choose i) →
        ∀ x, entry.answer.1 ≠ .error (.navigation (.unknownNode x)) := by
  refine ⟨?_, ne_unknownNode_of_dangling, ?_⟩
  · intro n hn
    have hready : e.ready := ready_of_currentNode? hn
    rw [id_of_currentNode? hn]
    refine ⟨fun x ↦ ?_, fun i x ↦ ?_⟩
    · rw [advance_unknownNode_iff, and_iff_right hready]
    · rw [choose_unknownNode_iff, and_iff_right hready]
  · intro requests hdangling hload entry hentry hfollows x
    obtain ⟨before, rest, rfl, hanswer⟩ := Service.exists_of_mem_log hentry
    have hnone : (service.after e before).script.dangling = [] :=
      dangling_after hdangling fun r hr ↦ hload r (List.mem_append_left _ hr)
    obtain ⟨hadvance, hchoose⟩ := ne_unknownNode_of_dangling hnone x
    generalize entry.request = request at hanswer hfollows
    obtain ⟨files, c⟩ := request
    rw [hanswer]
    rcases hfollows with rfl | ⟨i, rfl⟩
    · exact mapError_ne_unknownNode hadvance
    · exact mapError_ne_unknownNode (hchoose i)

/-- The empty target of a choice is a link that dangles. A restored id that names no node has no
links at all. -/
theorem unknownNode_iff_dangling_empty :
    let files : Files := fun _ ↦ .error .notFound
    let n : Node := { id := "a", choices := [{ text := "b" }] }
    let e := ((Engine.new {}).init.install (.start n)).1
    let e' := ((Engine.new {}).init.install (.start { id := "a" })).1
    let elsewhere := "\x7b\"currentNode\":\"c\"\x7d"
    (e.choose 0).result = .error (.unknownNode "") ∧
    (∀ entry ∈ service.log e' [(files, .loadState elsewhere), (files, .advance)],
      entry.request.2 = .advance → ∀ x,
        entry.answer.1 ≠ .error (.navigation (.unknownNode x))) ∧
    e'.advance.result ≠ .error (.unknownNode "c") := by
  intro files n e e' elsewhere
  obtain ⟨hnode, -, -⟩ := unknownNode_iff_dangling e
  obtain ⟨-, hnow, hrun⟩ := unknownNode_iff_dangling e'
  have hcurrent : e.currentNode? = some n := by decide
  have hlisted : ⟨n.id, .choice 0, ""⟩ ∈ e.script.dangling := by decide
  have hnone : e'.script.dangling = [] := by decide
  refine ⟨((hnode n hcurrent).2 0 "").mpr hlisted, ?_, (hnow hnone "c").1⟩
  intro entry hentry hadvance
  exact hrun _ hnone (by simp [Command.script?]) entry hentry (.inl hadvance)

end Dialogue.Engine
