import Dialogue.Proofs.Engine.Refusal

/-!
# Scripts from files and from texts

Loading the script in a file that can be read does to an engine what loading its text does, and has
the same result, so in a run the one can stand for the other. They differ in one warning: a text
that is no script is warned of, and a file that holds no script is refused without a warning.
-/

namespace Dialogue.Engine

variable {files : Files} {e : Engine} {path text : String}

/-! ## One load -/

theorem loadScriptFile_of_parse_ok (hfile : files path = .ok text) {script : Script}
    (hscript : Script.parse text = .ok script) :
    e.loadScriptFile files path = e.loadScript text := by
  rw [loadScriptFile, loadScript, Script.load_eq_parse hfile, hscript]

theorem loadScript_of_parse_error (hready : e.ready) {error : ScriptError}
    (herror : Script.parse text = .error error) :
    e.loadScript text = .failed e (.script error) [.rejectedScript error] := by
  rw [loadScript, if_neg (by simpa using hready), herror]

theorem loadScriptFile_of_parse_error (hready : e.ready) (hfile : files path = .ok text)
    {error : ScriptError} (herror : Script.parse text = .error error) :
    e.loadScriptFile files path = .failed e (.script error) := by
  rw [loadScriptFile, if_neg (by simpa using hready), Script.load_eq_parse hfile, herror]

/-- Ready or not, an engine makes the same of a file and of its text. -/
theorem loadScriptFile_alike (e : Engine) (hfile : files path = .ok text) :
    (e.loadScriptFile files path).result = (e.loadScript text).result ∧
    (e.loadScriptFile files path).engine = (e.loadScript text).engine := by
  cases hparse : Script.parse text with
  | ok script =>
      rw [loadScriptFile_of_parse_ok hfile hparse]
      exact ⟨rfl, rfl⟩
  | error error =>
      by_cases hready : e.ready
      · rw [loadScriptFile_of_parse_error hready hfile hparse,
          loadScript_of_parse_error hready hparse]
        exact ⟨rfl, rfl⟩
      · have hnot : !e.ready := by simpa using hready
        rw [loadScriptFile, loadScript, if_pos hnot, if_pos hnot]
        exact ⟨rfl, rfl⟩

/-! ## Runs -/

/-- The request with the text of the file in the place of the path, if the file can be read. -/
def inlined (r : Request) : Request :=
  match r.2 with
  | .loadScriptFile path =>
      match r.1 path with
      | .ok text => (r.1, .loadScript text)
      | .error _ => r
  | _ => r

theorem service_inlined (e : Engine) (r : Request) :
    service.next e (inlined r) = service.next e r ∧
    (service.answer e (inlined r)).1 = (service.answer e r).1 := by
  obtain ⟨files, c⟩ := r
  cases c with
  | loadScriptFile path =>
      cases hfile : files path with
      | ok text =>
          obtain ⟨hresult, hengine⟩ := loadScriptFile_alike e hfile
          simp only [inlined, hfile]
          exact ⟨hengine.symm, hresult.symm⟩
      | error error => simp [inlined, hfile]
  | _ => exact ⟨rfl, rfl⟩

theorem run_inlined (e : Engine) (requests : List Request) :
    service.after e (requests.map inlined) = service.after e requests ∧
    (service.log e (requests.map inlined)).map (·.answer.1) =
      (service.log e requests).map (·.answer.1) := by
  induction requests generalizing e with
  | nil => exact ⟨rfl, rfl⟩
  | cons r requests ih =>
      obtain ⟨hnext, hresult⟩ := service_inlined e r
      obtain ⟨hafter, hresults⟩ := ih (service.next e r)
      rw [List.map_cons, Service.after_cons, Service.after_cons, Service.log_cons,
        Service.log_cons, List.map_cons, List.map_cons, hnext, hresult]
      exact ⟨hafter, congrArg _ hresults⟩

/-- Loading a file that can be read and loading its text have the same result and leave the same
engine, whatever the engine and the text. So in every run each file can be given as its text. The
warnings are the same exactly if the text is a script; otherwise loading the text gives the one
warning that it was rejected, and loading the file gives none. -/
theorem loadScriptFile_agrees (hready : e.ready) (hfile : files path = .ok text) :
    (e.loadScriptFile files path).result = (e.loadScript text).result ∧
    (e.loadScriptFile files path).engine = (e.loadScript text).engine ∧
    (∀ requests : List Request,
      service.after e (requests.map inlined) = service.after e requests ∧
      (service.log e (requests.map inlined)).map (·.answer.1) =
        (service.log e requests).map (·.answer.1)) ∧
    ((e.loadScriptFile files path).warnings = (e.loadScript text).warnings ↔
      ∃ script, Script.parse text = .ok script) ∧
    ∀ error, Script.parse text = .error error →
      (e.loadScriptFile files path).warnings = [] ∧
      (e.loadScript text).warnings = [.rejectedScript error] := by
  have hrejected (error : ScriptError) (herror : Script.parse text = .error error) :
      (e.loadScriptFile files path).warnings = [] ∧
      (e.loadScript text).warnings = [.rejectedScript error] := by
    rw [loadScriptFile_of_parse_error hready hfile herror, loadScript_of_parse_error hready herror]
    exact ⟨rfl, rfl⟩
  obtain ⟨hresult, hengine⟩ := loadScriptFile_alike e hfile
  refine ⟨hresult, hengine, run_inlined e, ⟨fun hwarnings ↦ ?_, ?_⟩, hrejected⟩
  · cases hparse : Script.parse text with
    | ok script => exact ⟨script, rfl⟩
    | error error =>
        obtain ⟨hsilent, hwarned⟩ := hrejected error hparse
        rw [hsilent, hwarned] at hwarnings
        cases hwarnings
  · rintro ⟨script, hscript⟩
    rw [loadScriptFile_of_parse_ok hfile hscript]

/-- A script whose link dangles is warned about either way, where links are checked. -/
theorem loadScriptFile_agrees_dangling :
    let text := "\x7b\"nodes\":[\x7b\"id\":\"a\",\"next\":\"b\"\x7d]\x7d"
    let files : Files := fun _ ↦ .ok text
    let e := (new { validateOnLoad := true }).init
    (e.loadScriptFile files "s").engine = (e.loadScript text).engine ∧
    (e.loadScriptFile files "s").warnings = (e.loadScript text).warnings ∧
    (e.loadScript text).warnings = [.dangling ⟨"a", .next, "b"⟩] := by
  intro text files e
  have hscript : (Script.parse text).toOption.isSome := by decide +kernel
  have hparse : ∃ script, Script.parse text = .ok script := by
    cases h : Script.parse text with
    | ok script => exact ⟨script, rfl⟩
    | error error => simp [h, Except.toOption] at hscript
  have hready : e.ready := rfl
  have hfile : files "s" = .ok text := rfl
  obtain ⟨-, hengine, -, hwarnings, -⟩ := loadScriptFile_agrees hready hfile
  exact ⟨hengine, hwarnings.mpr hparse, by decide +kernel⟩

/-- A file that is no script is refused without a word, and its text with one. -/
theorem loadScriptFile_silent :
    let files : Files := fun _ ↦ .ok "["
    let e := (new {}).init
    e.ready ∧ files "s" = .ok "[" ∧
    (e.loadScriptFile files "s").warnings ≠ (e.loadScript "[").warnings ∧
    (e.loadScriptFile files "s").warnings = [] ∧
    (e.loadScript "[").warnings.map Warning.message =
      ["rejected script: malformed script: expected '\x7b' at offset 0"] := by
  intro files e
  have hsilent : (e.loadScriptFile files "s").warnings = [] := by decide +kernel
  have hwarned : (e.loadScript "[").warnings.map Warning.message =
      ["rejected script: malformed script: expected '\x7b' at offset 0"] := by
    decide +kernel
  refine ⟨rfl, rfl, ?_, hsilent, hwarned⟩
  intro heq
  rw [← heq, hsilent] at hwarned
  cases hwarned

end Dialogue.Engine
