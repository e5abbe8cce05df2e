import Dialogue.Proofs.Engine.Effect
import Dialogue.Proofs.Service

/-!
# Engines as services

An engine serves commands and refuses those that fail. What a path leads to may change from one
command to the next, so each command comes with its files.
-/

namespace Dialogue.Engine

/-- A command, with what each path leads to when it is given. -/
abbrev Request := Files × Command

/-- What a failed command leaves behind is the engine that it found. -/
theorem engine_of_result_error {files : Files} {e : Engine} {c : Command} {error : EngineError}
    (h : (e.perform files c).result = .error error) : (e.perform files c).engine = e :=
  (perform_atomic files e c).engine_eq h

/-- An engine, with the result and the warnings of each command. -/
def service : Service Engine Request (Except EngineError Unit × List Warning) where
  next e r := (e.perform r.1 r.2).engine
  answer e r := ((e.perform r.1 r.2).result, (e.perform r.1 r.2).warnings)
  refuses e r := !(e.perform r.1 r.2).result.isOk
  next_of_refuses {e r} h := by
    cases hresult : (e.perform r.1 r.2).result with
    | error error => exact engine_of_result_error hresult
    | ok => simp [hresult, Except.isOk, Except.toBool] at h

theorem Reachable.after {e : Engine} (h : Reachable e) (requests : List Request) :
    Reachable (service.after e requests) := by
  induction requests generalizing e with
  | nil => exact h
  | cons r requests ih => exact ih (h.perform r.1 r.2)

end Dialogue.Engine
