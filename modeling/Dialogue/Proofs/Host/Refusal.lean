import Dialogue.Host
import Dialogue.Proofs.Engine.Refusal

/-!
# Refused operations leave no trace

A command that fails and a call that answers `false` leave the engine as it is, and so does a call
without an answer that comes when the engine is not ready. Runs of commands and runs of calls may
therefore be cleared of what was refused: nothing else changes.
-/

namespace Dialogue.Host

open Engine (Command Effect Outcome Request)

variable {e : Engine}

/-! ## Calls -/

theorem report_of_false {ε : Type} {o : Outcome ε} {effect : Engine → Prop}
    (h : o.Atomic e effect) (hfalse : (report o).1 = some false) : (report o).2 = e := by
  rcases h with ⟨_, -, hengine⟩ | ⟨hok, -⟩
  · exact hengine
  · rw [report, hok] at hfalse
    cases hfalse

theorem call_choose_of_neg (e : Engine) {index : Int32} (h : index < 0) :
    call e (.choose index) = (some false, e) :=
  if_pos h

theorem call_reset_of_not_ready (h : ¬e.ready) : call e .reset = (none, e) := by
  rw [call, Engine.reset, if_neg h]
  rfl

theorem call_setVariable_of_not_ready (h : ¬e.ready) (name : String) (value : Int32) :
    call e (.setVariable name value) = (none, e) := by
  rw [call, Engine.setVariable, if_neg h]
  rfl

/-- A call that answers `false` changes nothing. -/
theorem call_of_false {c : Call} (h : (call e c).1 = some false) : (call e c).2 = e := by
  cases c with
  | init => cases h
  | shutdown => cases h
  | reset => cases h
  | loadScript text => exact report_of_false (Engine.loadScript_atomic e text) h
  | loadState text => exact report_of_false (Engine.loadState_atomic e text) h
  | setVariable name value => cases h
  | goto id => exact report_of_false (Engine.goto_atomic e id) h
  | choose index =>
      rw [call] at h ⊢
      split
      · rfl
      · next hindex =>
          rw [if_neg hindex] at h
          exact report_of_false (Engine.choose_atomic e _) h
  | advance => exact report_of_false (Engine.advance_atomic e) h
  | back => exact report_of_false (Engine.back_atomic e) h

/-- Whether a call fails: what can fail answers so, and what has no answer fails if the engine is
not ready. Shutting down never fails. -/
def refuses (e : Engine) : Call → Bool
  | .reset | .setVariable _ _ => !e.ready
  | c => (call e c).1 = some false

theorem call_of_refuses {c : Call} (h : refuses e c) : (call e c).2 = e := by
  fun_cases refuses e c with
  | case1 =>
      have hready : ¬e.ready := by simpa [refuses] using h
      rw [call_reset_of_not_ready hready]
  | case2 name value =>
      have hready : ¬e.ready := by simpa [refuses] using h
      rw [call_setVariable_of_not_ready hready]
  | case3 c hreset hset => exact call_of_false (by simpa [refuses] using h)

/-- An engine behind the boundary, with the answers of the calls. -/
def service : Service Engine Call (Option Bool) where
  next e c := (call e c).2
  answer e c := (call e c).1
  refuses := refuses
  next_of_refuses := call_of_refuses

/-! ## Runs -/

/-- A command that fails leaves script, state, settings and readiness as they are, and so a run of
commands with or without those that fail ends with the same engine and gives the others the same
results and warnings. The same holds of calls that answer `false`, as those with a negative index
do, and of the two without an answer that an engine refuses when it is not ready. -/
theorem failures_untraced :
    (∀ (files : Files) (e : Engine) (c : Command) (error : EngineError),
      (e.perform files c).result = .error error → (e.perform files c).engine = e) ∧
    (∀ (e : Engine) (requests : List Request),
      Engine.service.after e (Engine.service.granted e requests) =
        Engine.service.after e requests ∧
      Engine.service.log e (Engine.service.granted e requests) =
        (Engine.service.log e requests).filter (!·.refused)) ∧
    (∀ (e : Engine) (c : Call), (call e c).1 = some false → (call e c).2 = e) ∧
    (∀ (e : Engine) (index : Int32), index < 0 → call e (.choose index) = (some false, e)) ∧
    (∀ e : Engine, ¬e.ready → call e .reset = (none, e) ∧
      ∀ name value, call e (.setVariable name value) = (none, e)) ∧
    (∀ (e : Engine) (calls : List Call),
      service.after e (service.granted e calls) = service.after e calls ∧
      service.log e (service.granted e calls) = (service.log e calls).filter (!·.refused)) := by
  refine ⟨?_, ?_, ?_, ?_, ?_, ?_⟩
  · intro files e c error h
    exact Engine.engine_of_result_error h
  · intro e requests
    exact ⟨Service.after_granted e requests, Service.log_granted e requests⟩
  · intro e c h
    exact call_of_false h
  · intro e index h
    exact call_choose_of_neg e h
  · intro e h
    exact ⟨call_reset_of_not_ready h, call_setVariable_of_not_ready h⟩
  · intro e calls
    exact ⟨Service.after_granted e calls, Service.log_granted e calls⟩

/-- A dangling link is refused only after the node that it leads from was looked up. -/
theorem failures_untraced_dangling :
    let files : Files := fun _ ↦ .error .notFound
    let e := ((Engine.new {}).init.install (.start { id := "a", next := "b" })).1
    (e.perform files .advance).engine = e ∧ (call e .advance).2 = e ∧
    call e (.choose (-1)) = (some false, e) ∧ call new .reset = (none, new) := by
  intro files e
  have hadvance : (e.perform files .advance).result =
      .error (.navigation (.unknownNode "b")) := rfl
  have hcall : (call e .advance).1 = some false := by decide +kernel
  have hready : ¬new.ready := by decide
  obtain ⟨hcommand, -, hfalse, hneg, hunready, -⟩ := failures_untraced
  exact ⟨hcommand files e .advance _ hadvance, hfalse e .advance hcall,
    hneg e (-1) (by decide), (hunready new hready).1⟩

end Dialogue.Host
