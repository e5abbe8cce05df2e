import Dialogue.Proofs.Engine.History
import Dialogue.Proofs.Engine.Refusal
import Dialogue.Proofs.Script.Nodes

/-!
# Playthroughs

A playthrough is what happens to an engine that was built with a script and is then only played:
its commands move, set variables and reset, whatever fails is of no effect, and what is restored
was saved earlier in the same playthrough. Although the state knows nothing of the script, it never
leaves it then: every id that it holds was the id of a node when it was put there.
-/

namespace Dialogue

/-! ## States inside a script -/

/-- The ids of a state name nodes of the script, but there may be no current node. -/
structure State.Within (script : Script) (s : State) : Prop where
  current : s.current = "" ∨ script.contains s.current
  history : ∀ id ∈ s.history, script.contains id

namespace State.Within

variable {script : Script} {s t : State} {id : String}

theorem fresh (limit : Option Nat) : (fresh limit).Within script where
  current := .inl rfl
  history _ hid := nomatch hid

theorem setCurrent (h : s.Within script) (hid : script.contains id) :
    (s.setCurrent id).Within script where
  current := .inr hid
  history := h.history

theorem setVariable (h : s.Within script) (name : String) (value : Int32) :
    (s.setVariable name value).Within script where
  current := h.current
  history := h.history

theorem pushHistory (h : s.Within script) (hid : script.contains id) :
    (s.pushHistory id).Within script where
  current := h.current
  history id' hid' := by
    rw [history_pushHistory] at hid'
    rcases List.mem_append.mp (mem_of_mem_lastUpTo hid') with hid' | hid'
    · exact h.history id' hid'
    · rw [List.mem_singleton.mp hid']
      exact hid

/-- What is left behind is the current id, which names a node unless it is empty. -/
theorem advanceTo (h : s.Within script) (hid : script.contains id) :
    (s.advanceTo id).Within script := by
  rw [State.advanceTo]
  split
  · next hcurrent =>
      have hne : s.current ≠ "" := by simpa [hasCurrent] using hcurrent
      exact (h.pushHistory (h.current.resolve_left hne)).setCurrent hid
  · exact h.setCurrent hid

theorem popHistory (h : s.Within script) (hpop : s.popHistory? = some (id, t)) :
    t.Within script ∧ script.contains id := by
  obtain ⟨newest, hnewest, heq⟩ := Option.map_eq_some_iff.mp hpop
  cases heq
  have hsub : s.history.dropLast ⊆ s.history := (List.dropLast_sublist s.history).subset
  exact ⟨⟨h.current, fun id' hid' ↦ h.history id' (hsub hid')⟩,
    h.history id (List.mem_of_getLast? hnewest)⟩

/-- Restoring a state inside the script stays there, also where the saved state had no current
node and that of the restoring one is kept. -/
theorem restore (h : s.Within script) (hsaved : t.Within script) {s' : State}
    (hrestore : s.restore t.save = .ok s') : s'.Within script := by
  rw [restore_save_eq] at hrestore
  cases hrestore
  constructor
  · dsimp only
    split
    · exact h.current
    · exact hsaved.current
  · intro id hid
    exact hsaved.history id (List.mem_of_mem_filter (mem_of_mem_lastUpTo hid))

end State.Within

namespace Engine

variable {files : Files} {script : Script} {e e' : Engine} {c : Command} {saved : List String}

/-! ## Playing -/

/-- Commands that neither start nor end anything, and load nothing. -/
def Command.isPlay : Command → Bool
  | .goto _ | .choose _ | .advance | .back | .setVariable _ _ | .reset => true
  | _ => false

/-- What an engine that was built with the script can be while it is played, with the texts that
were saved so far. -/
inductive Playthrough (script : Script) : Engine → List String → Prop
  | build {setup : Setup} {files : Files} {read : Settings.Reader} {e : Engine}
      {warnings : List Warning} :
      setup.script? files = .ok (some script) → setup.build files read = .ok (e, warnings) →
      Playthrough script e []
  | play (files : Files) {c : Command} {e : Engine} {saved : List String} :
      c.isPlay → Playthrough script e saved → Playthrough script (e.perform files c).engine saved
  | fail {files : Files} {c : Command} {error : EngineError} {e : Engine} {saved : List String} :
      (e.perform files c).result = .error error → Playthrough script e saved →
      Playthrough script (e.perform files c).engine saved
  | save {text : String} {e : Engine} {saved : List String} :
      e.save = .ok text → Playthrough script e saved → Playthrough script e (text :: saved)
  | restore {text : String} {e : Engine} {saved : List String} :
      text ∈ saved → Playthrough script e saved →
      Playthrough script (e.loadState text).engine saved

/-- A ready engine with the script, and with a state inside it. -/
structure Plays (script : Script) (e : Engine) : Prop where
  ready : e.ready
  script_eq : e.script = script
  within : e.state.Within script

namespace Plays

theorem moves (h : Plays script e) {id : String} (hmoves : Moves e id e') : Plays script e' := by
  have hcontains := hmoves.contains
  rw [h.script_eq] at hcontains
  refine ⟨hmoves.ready_after, hmoves.script_eq.trans h.script_eq, ?_⟩
  rw [hmoves.state_eq]
  exact h.within.advanceTo hcontains

theorem effect (h : Plays script e) (hc : c.isPlay) (heffect : Effect files e c e') :
    Plays script e' := by
  cases heffect with
  | goto hmoves => exact h.moves hmoves
  | choose _ _ hmoves => exact h.moves hmoves
  | advance _ _ hmoves => exact h.moves hmoves
  | back _ hpop =>
      obtain ⟨hwithin, hid⟩ := h.within.popHistory hpop
      exact ⟨h.ready, h.script_eq, hwithin.setCurrent hid⟩
  | setVariable _ => exact ⟨h.ready, h.script_eq, h.within.setVariable _ _⟩
  | reset _ => exact ⟨h.ready, h.script_eq, .fresh _⟩
  | _ => cases hc

theorem perform (h : Plays script e) (hc : c.isPlay) :
    Plays script (e.perform files c).engine :=
  (perform_atomic files e c).holds h fun _ heffect ↦ h.effect hc heffect

theorem restore (h : Plays script e) {s : State} (hs : s.Within script) :
    Plays script (e.loadState s.save).engine := by
  refine (loadState_atomic e s.save).holds h ?_
  rintro _ ⟨state, -, hstate, rfl⟩
  exact ⟨h.ready, h.script_eq, h.within.restore hs hstate⟩

/-- The entry of a script names one of its nodes. -/
theorem install (settings : Settings) (script : Script) :
    Plays script ((new settings).init.install script).1 := by
  refine ⟨rfl, rfl, ?_⟩
  have hfresh : ((new settings).init.state).Within script := .fresh _
  rcases state_install (new settings).init script with hstate | ⟨id, hentry, hstate⟩
  · rw [hstate]
    exact hfresh
  · rw [hstate]
    exact hfresh.setCurrent (Script.contains_iff.mpr (script.entry_mem id hentry))

end Plays

/-- Along a playthrough the engine stays inside the script, and so does what it saved. -/
theorem Playthrough.plays (h : Playthrough script e saved) :
    Plays script e ∧ ∀ text ∈ saved, ∃ s : State, s.Within script ∧ s.save = text := by
  induction h with
  | build hscript hbuild =>
      obtain ⟨settings, ⟨hnone, -⟩ | ⟨installed, hsome, rfl⟩⟩ := build_cases hbuild
      · cases hscript.symm.trans hnone
      · cases hscript.symm.trans hsome
        exact ⟨.install settings script, fun text htext ↦ nomatch htext⟩
  | play files hc _ ih => exact ⟨ih.1.perform hc, ih.2⟩
  | @fail files c error e saved herror _ ih =>
      have hsame : (e.perform files c).engine = e := engine_of_result_error herror
      rw [hsame]
      exact ih
  | @save text e saved htext _ ih =>
      refine ⟨ih.1, List.forall_mem_cons.mpr ⟨⟨e.state, ih.1.within, ?_⟩, ih.2⟩⟩
      rw [Engine.save, if_pos ih.1.ready] at htext
      exact Except.ok.inj htext
  | restore htext _ ih =>
      obtain ⟨s, hs, rfl⟩ := ih.2 _ htext
      exact ⟨ih.1.restore hs, ih.2⟩

/-- At every point of a playthrough the current id is empty or names a node of the script, and every
entry of the history names one. So an id that is shown has its node, and going back works as long as
there is an entry, and leads to the node of the newest one. -/
theorem Playthrough.inside (h : Playthrough script e saved) :
    (e.currentId = "" ∨ script.contains e.currentId) ∧
    (∀ id ∈ e.state.history, script.contains id) ∧
    (e.currentId ≠ "" → ∃ n ∈ script.nodes, e.currentNode? = some n) ∧
    (e.state.history ≠ [] → e.back.result = .ok () ∧
      ∃ n ∈ script.nodes, e.state.history.getLast? = some n.id ∧
        e.back.engine.currentNode? = some n) := by
  obtain ⟨hready, rfl, hwithin⟩ := h.plays.1
  have hshown : e.currentId = e.state.current := if_pos hready
  rw [hshown]
  refine ⟨hwithin.current, hwithin.history, ?_, ?_⟩
  · intro hcurrent
    obtain ⟨n, hn, -, hnode⟩ :=
      Script.exists_node?_of_contains (hwithin.current.resolve_left hcurrent)
    exact ⟨n, hn, (if_pos hready).trans hnode⟩
  · intro hhistory
    obtain ⟨ids, id, hconcat⟩ := (List.eq_nil_or_concat' e.state.history).resolve_left hhistory
    have hid : id ∈ e.state.history := by simp [hconcat]
    obtain ⟨n, hn, rfl, hnode⟩ := Script.exists_node?_of_contains (hwithin.history id hid)
    rw [back_of_concat hready hconcat]
    refine ⟨rfl, n, hn, ?_, (if_pos hready).trans hnode⟩
    rw [hconcat, List.getLast?_concat]

/-- A state is saved, given up for another one, and restored. A script that is not there is not
loaded on the way, and in the end a link that leads nowhere is not followed. -/
theorem Playthrough.inside_restored :
    let files : Files := fun _ ↦ .error .notFound
    let script : Script := .ofNodes [{ id := "a", next := "b" }, { id := "b", next := "c" }]
    let built := ((Engine.new { historyLimit := some 1 }).init.install script).1
    let moved := (built.perform files .advance).engine
    let left := moved.run files [.goto "a", .loadScriptFile "missing", .reset]
    let last := ((left.loadState moved.state.save).engine.perform files .advance).engine
    left.currentId = "" ∧ last.currentId = "b" ∧ last.state.history = ["a"] ∧
    (∃ n ∈ script.nodes, last.currentNode? = some n) ∧ last.back.result = .ok () := by
  intro files script built moved left last
  have hbuild : ({ settings := { historyLimit := some 1 }, script := some script } : Setup).build
      files = .ok ((Engine.new { historyLimit := some 1 }).init.install script) := rfl
  have hmoved : Playthrough script moved [] :=
    (Playthrough.build rfl hbuild).play files (c := .advance) rfl
  have hsaved : Playthrough script moved [moved.state.save] :=
    hmoved.save (if_pos hmoved.plays.1.ready)
  have hgone := hsaved.play files (c := .goto "a") rfl
  have hmissing : ((moved.perform files (.goto "a")).engine.perform files
      (.loadScriptFile "missing")).result = .error (.script (.unreadable .notFound)) := by
    rw [perform, loadScriptFile, if_neg (by simp [hgone.plays.1.ready])]
    rfl
  have hleft : Playthrough script left [moved.state.save] :=
    (hgone.fail hmissing).play files (c := .reset) rfl
  have hlast : Playthrough script last [moved.state.save] :=
    (hleft.restore List.mem_cons_self).play files (c := .advance) rfl
  have hcurrent : last.currentId = "b" := by decide +kernel
  have hhistory : last.state.history = ["a"] := by decide +kernel
  obtain ⟨-, -, hnode, hback⟩ := hlast.inside
  exact ⟨by decide +kernel, hcurrent, hhistory, hnode (by simp [hcurrent]),
    (hback (by simp [hhistory])).1⟩

end Engine

end Dialogue
