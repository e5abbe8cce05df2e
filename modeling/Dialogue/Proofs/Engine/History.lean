import Dialogue.Proofs.Engine.Effect
import Dialogue.Proofs.State.Restoring

/-!
# Histories along a run

Every engine that is reached obeys the limit of its settings and remembers no empty id, whatever
texts were restored and whatever nodes were visited on the way. So going back always leads to an
id, and what the engine saves is restored without loss.
-/

namespace Dialogue.Engine

open State (Obeys)

/-! ## One command -/

theorem obeys_install {e : Engine} (h : Obeys e.settings.historyLimit e.state) (script : Script) :
    Obeys (e.install script).1.settings.historyLimit (e.install script).1.state := by
  change Obeys e.settings.historyLimit (e.install script).1.state
  rcases state_install e script with hstate | ⟨id, -, hstate⟩
  · rw [hstate]
    exact h
  · rw [hstate]
    exact h.setCurrent id

theorem obeys_of_effect {files : Files} {e e' : Engine} {c : Command}
    (heffect : Effect files e c e') (h : Obeys e.settings.historyLimit e.state) :
    Obeys e'.settings.historyLimit e'.state := by
  have hmove {id : String} (hmoves : Moves e id e') :
      Obeys e'.settings.historyLimit e'.state := by
    rw [hmoves.settings_eq, hmoves.state_eq]
    exact h.advanceTo id
  cases heffect with
  | init => exact h
  | shutdown =>
      rw [shutdown]
      split
      · exact .fresh _
      · exact h
  | loadScript _ _ => exact obeys_install h _
  | loadScriptFile _ _ => exact obeys_install h _
  | loadState _ hstate => exact h.restore hstate
  | goto hmoves => exact hmove hmoves
  | choose _ _ hmoves => exact hmove hmoves
  | advance _ _ hmoves => exact hmove hmoves
  | back _ hpop => exact (h.popHistory hpop).1.setCurrent _
  | setVariable _ => exact h.setVariable _ _
  | reset _ => exact h.reset

theorem back_of_concat {e : Engine} (hready : e.ready) {ids : List String} {id : String}
    (hhistory : e.state.history = ids ++ [id]) :
    e.back = .done { e with state := { e.state with current := id, history := ids } } := by
  rw [back, if_neg (by simpa using hready), State.popHistory?_of_concat hhistory]
  rfl

theorem back_of_nil {e : Engine} (hready : e.ready) (hhistory : e.state.history = []) :
    e.back = .failed e .historyEmpty := by
  rw [back, if_neg (by simpa using hready), State.popHistory?_of_nil hhistory]

/-! ## Runs -/

theorem Reachable.obeys {e : Engine} (h : Reachable e) :
    Obeys e.settings.historyLimit e.state := by
  refine h.invariant (I := fun e ↦ Obeys e.settings.historyLimit e.state) ?_ ?_ ?_
  · intro settings
    exact .fresh _
  · intro e script _ he
    exact obeys_install he script
  · intro files e c e' heffect he
    exact obeys_of_effect heffect he

/-- Going back takes up the newest history entry, which is not empty. -/
theorem currentId_back {e : Engine} (h : Obeys e.settings.historyLimit e.state)
    (hback : e.back.result = .ok ()) : e.back.engine.currentId ≠ "" := by
  obtain ⟨id, state, hready, hpop, hengine⟩ := (back_atomic e).effect_of_ok hback
  rw [hengine, currentId, if_pos hready]
  exact (h.popHistory hpop).2

/-- A ready engine with the same limit restores what was saved, and keeps its own current node only
if none was saved. -/
theorem loadState_save {e e' : Engine} (h : Obeys e.settings.historyLimit e.state)
    (hready : e'.ready) (hlimit : e'.state.limit = e.state.limit) :
    e'.loadState e.state.save = .done { e' with state := { e.state with
      current := if e.state.current = "" then e'.state.current else e.state.current } } := by
  have hhistory := h.history_eq
  rw [← h.limit_eq] at hhistory
  rw [loadState, State.restore_save_eq, hlimit, hhistory]
  simp [hready]

/-- Along every run the history keeps to the limit of the settings and holds no empty id. So going
back, if it succeeds, leads to an id that is not empty; and what a ready engine saves is restored by
every ready engine with the same limit: the history and the variables as they were, and the current
node if there is one. -/
theorem Reachable.history_kept {e : Engine} (h : Reachable e) :
    e.state.limit = e.settings.historyLimit ∧
    (∀ n ∈ e.settings.historyLimit, e.state.history.length ≤ n) ∧
    (∀ id ∈ e.state.history, id ≠ "") ∧
    (e.back.result = .ok () → e.back.engine.currentId ≠ "") ∧
    (e.ready → ∃ text, e.save = .ok text ∧
      ∀ e' : Engine, e'.ready → e'.state.limit = e.state.limit →
        (e'.loadState text).result = .ok () ∧
        (e'.loadState text).engine.state.history = e.state.history ∧
        (e'.loadState text).engine.state.values = e.state.values ∧
        (e.state.current ≠ "" →
          (e'.loadState text).engine.state.current = e.state.current)) := by
  have hobeys := h.obeys
  refine ⟨hobeys.limit_eq, hobeys.length_le, hobeys.ne_empty, currentId_back hobeys, ?_⟩
  intro hready
  refine ⟨e.state.save, by rw [save, if_pos hready], ?_⟩
  intro e' hready' hlimit
  rw [loadState_save hobeys hready' hlimit]
  refine ⟨rfl, rfl, rfl, ?_⟩
  intro hcurrent
  exact if_neg hcurrent

theorem Reachable.history_kept_hostile :
    let e := (Engine.new { historyLimit := some 1 }).run (fun _ ↦ .error .notFound)
      [.init, .loadState "\x7b\"history\":[\"a\",\"\",null,\"b\",\"\"]\x7d"]
    e.state.history = ["b"] ∧ e.state.history.length ≤ 1 ∧ e.back.engine.currentId ≠ "" := by
  intro e
  have h : Reachable e := (Reachable.new { historyLimit := some 1 }).run _ _
  have hlimit : e.settings.historyLimit = some 1 := by decide +kernel
  have hback : e.back.result = .ok () := by decide +kernel
  obtain ⟨-, hlength, -, hcurrent, -⟩ := h.history_kept
  exact ⟨by decide +kernel, hlength 1 hlimit, hcurrent hback⟩

end Dialogue.Engine
