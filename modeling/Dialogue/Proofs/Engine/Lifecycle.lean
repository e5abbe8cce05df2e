import Dialogue.Host
import Dialogue.Proofs.Engine.Refusal

/-!
# Lifecycle

An engine that is not ready is as good as new. Only `init` makes an engine ready, only `shutdown`
ends that, and it leaves a new engine behind; before `init` everything else is refused. So nothing
of the time before a restart is left after it, and a script that is loaded then is installed as in
an engine that was just built.
-/

namespace Dialogue.Engine

variable {files : Files} {e : Engine}

/-! ## What is refused -/

theorem shutdown_of_not_ready (h : ¬e.ready) : e.shutdown = e :=
  if_neg h

theorem perform_of_not_ready (h : ¬e.ready) {c : Command} (hinit : c ≠ .init)
    (hshutdown : c ≠ .shutdown) :
    e.perform files c = .failed e (.navigation .notReady) := by
  have hready : !e.ready := by simpa using h
  cases c with
  | init => exact absurd rfl hinit
  | shutdown => exact absurd rfl hshutdown
  | loadScript text => exact if_pos hready
  | loadScriptFile path => exact if_pos hready
  | loadState text => exact if_pos hready
  | goto id => rw [perform, goto, if_pos hready]; rfl
  | choose index => rw [perform, choose, if_pos hready]; rfl
  | advance => rw [perform, advance, if_pos hready]; rfl
  | back => rw [perform, back, if_pos hready]; rfl
  | setVariable name value => rw [perform, setVariable, if_neg h]; rfl
  | reset => rw [perform, reset, if_neg h]; rfl

theorem engine_perform_of_not_ready (h : ¬e.ready) {c : Command} (hinit : c ≠ .init) :
    (e.perform files c).engine = e := by
  by_cases hshutdown : c = .shutdown
  · rw [hshutdown]
    exact shutdown_of_not_ready h
  · rw [perform_of_not_ready h hinit hshutdown]
    rfl

theorem after_of_not_ready (h : ¬e.ready) {requests : List Request}
    (hinit : ∀ r ∈ requests, r.2 ≠ .init) : service.after e requests = e := by
  induction requests with
  | nil => rfl
  | cons r requests ih =>
      obtain ⟨hr, hrequests⟩ := List.forall_mem_cons.mp hinit
      have hnext : service.next e r = e := engine_perform_of_not_ready h hr
      rw [Service.after_cons, hnext]
      exact ih hrequests

theorem answer_of_not_ready (h : ¬e.ready) {requests : List Request}
    (hinit : ∀ r ∈ requests, r.2 ≠ .init)
    {entry : Service.Entry Request (Except EngineError Unit × List Warning)}
    (hentry : entry ∈ service.log e requests) (hshutdown : entry.request.2 ≠ .shutdown) :
    entry.answer = (.error (.navigation .notReady), []) := by
  obtain ⟨before, rest, rfl, hanswer⟩ := Service.exists_of_mem_log hentry
  have hbefore : service.after e before = e :=
    after_of_not_ready h fun r hr ↦ hinit r (List.mem_append_left _ hr)
  have hrequest : entry.request.2 ≠ .init := hinit _ (by simp)
  have hperform : e.perform entry.request.1 entry.request.2 = .failed e (.navigation .notReady) :=
    perform_of_not_ready h hrequest hshutdown
  rw [hanswer, hbefore]
  exact congrArg (fun o : Outcome EngineError ↦ (o.result, o.warnings)) hperform

/-! ## What is left -/

/-- Whatever succeeds leaves a ready engine, unless it shuts the engine down. -/
theorem ready_of_effect {e' : Engine} {c : Command} (h : Effect files e c e')
    (hshutdown : c ≠ .shutdown) : e'.ready := by
  cases h with
  | init => rfl
  | shutdown => exact absurd rfl hshutdown
  | loadScript hready _ => exact hready
  | loadScriptFile hready _ => exact hready
  | loadState hready _ => exact hready
  | goto hmoves => exact hmoves.ready_after
  | choose _ _ hmoves => exact hmoves.ready_after
  | advance _ _ hmoves => exact hmoves.ready_after
  | back hready _ => exact hready
  | setVariable hready => exact hready
  | reset hready => exact hready

theorem ready_perform (hready : e.ready) {c : Command} (hshutdown : c ≠ .shutdown) :
    (e.perform files c).engine.ready :=
  (perform_atomic files e c).holds (I := (·.ready)) hready
    fun _ heffect ↦ ready_of_effect heffect hshutdown

theorem settings_of_effect {e' : Engine} {c : Command} (h : Effect files e c e') :
    e'.settings = e.settings := by
  cases h with
  | shutdown =>
      rw [shutdown]
      split <;> rfl
  | goto hmoves => exact hmoves.settings_eq
  | choose _ _ hmoves => exact hmoves.settings_eq
  | advance _ _ hmoves => exact hmoves.settings_eq
  | _ => rfl

theorem settings_perform (c : Command) : (e.perform files c).engine.settings = e.settings :=
  (perform_atomic files e c).holds (I := (·.settings = e.settings)) rfl
    fun _ heffect ↦ settings_of_effect heffect

theorem Reachable.eq_new (h : Reachable e) : ¬e.ready → e = .new e.settings := by
  refine h.invariant (I := fun e ↦ ¬e.ready → e = .new e.settings) ?_ ?_ ?_
  · intro settings _
    rfl
  · intro e script hready _ hnot
    exact absurd hready hnot
  · intro files e c e' heffect he hnot
    by_cases hshutdown : c = .shutdown
    · subst hshutdown
      cases heffect
      rw [shutdown] at hnot ⊢
      split
      · rfl
      · next hready => exact he hready
    · exact absurd (ready_of_effect heffect hshutdown) hnot

theorem Reachable.shutdown_eq_new (h : Reachable e) : e.shutdown = .new e.settings := by
  rw [shutdown]
  split
  · rfl
  · next hready => exact h.eq_new hready

/-- What is shown where nothing is loaded or played, by the readings that ask whether the engine is
ready and by those that do not. -/
structure ShowsNothing (e : Engine) : Prop where
  size : e.script.size = 0
  entry : e.script.entry = none
  dangling : e.script.dangling = []
  lint : Host.danglingMessage e = "[]"
  current : e.state.current = ""
  history : e.state.history = []
  values : e.state.values = .empty
  currentNode? : e.currentNode? = none
  currentId : e.currentId = ""
  canGoBack : e.canGoBack = false
  valueOf : ∀ name, e.valueOf name = 0
  hasVariable : ∀ name, e.hasVariable name = false
  cues : e.cues = []
  save : e.save = .error .notReady

theorem showsNothing_new (settings : Settings) : ShowsNothing (new settings) where
  size := rfl
  entry := rfl
  dangling := rfl
  lint := rfl
  current := rfl
  history := rfl
  values := rfl
  currentNode? := rfl
  currentId := rfl
  canGoBack := rfl
  valueOf _ := rfl
  hasVariable _ := rfl
  cues := rfl
  save := rfl

/-! ## Restarting -/

theorem loadScript_eq_install (hready : e.ready) {text : String} {script : Script}
    (hscript : Script.parse text = .ok script) :
    e.loadScript text = .done (e.install script).1 (e.install script).2 := by
  rw [loadScript, if_neg (by simpa using hready), hscript]

/-- An engine that is not ready has no script and a fresh state, so it shows nothing, and whatever
it is asked before `init` changes nothing and is refused, if it can fail at all. Ready or not, an
engine that is shut down, started and given a script is the engine that is built with its settings
and that script. -/
theorem Reachable.lifecycle (h : Reachable e) :
    (¬e.ready →
      e.script = .empty ∧ e.state = .fresh e.settings.historyLimit ∧ ShowsNothing e ∧
      ∀ requests : List Request, (∀ r ∈ requests, r.2 ≠ .init) →
        service.after e requests = e ∧
        ∀ entry ∈ service.log e requests, entry.request.2 ≠ .shutdown →
          entry.answer = (.error (.navigation .notReady), [])) ∧
    ∀ (files : Files) (read : Settings.Reader) (text : String) (script : Script),
      Script.parse text = .ok script → ∃ restarted warnings,
        e.shutdown.init.loadScript text = .done restarted warnings ∧
        Setup.build { settings := e.settings, script := some script } files read =
          .ok (restarted, warnings) := by
  constructor
  · intro hready
    have hnew : e = .new e.settings := h.eq_new hready
    refine ⟨congrArg Engine.script hnew, congrArg Engine.state hnew, ?_, ?_⟩
    · rw [hnew]
      exact showsNothing_new e.settings
    · intro requests hinit
      exact ⟨after_of_not_ready hready hinit, fun entry ↦ answer_of_not_ready hready hinit⟩
  · intro files read text script hscript
    have hready : e.shutdown.init.ready := rfl
    refine ⟨_, _, loadScript_eq_install hready hscript, ?_⟩
    rw [h.shutdown_eq_new]
    rfl

/-- A variable, a history and a script that dangles are all gone after a restart. -/
theorem Reachable.lifecycle_after_play :
    let files : Files := fun _ ↦ .error .notFound
    let script : Script := .start { id := "a", next := "b" }
    let text := "\x7b\"nodes\":[\x7b\"id\":\"a\",\"next\":\"b\"\x7d]\x7d"
    let played := (Engine.new { historyLimit := some 1 }).run files
      [.init, .loadScript text, .setVariable "x" 1, .goto "a"]
    let e := played.shutdown
    played.state.history = ["a"] ∧ ¬e.ready ∧ e.state = .fresh (some 1) ∧ ShowsNothing e ∧
    service.after e [(files, .loadScript text), (files, .shutdown), (files, .back)] = e ∧
    Script.parse text = .ok script ∧
    ∃ restarted warnings, played.shutdown.init.loadScript text = .done restarted warnings ∧
      Setup.build { settings := played.settings, script := some script } files =
        .ok (restarted, warnings) := by
  intro files script text played e
  have hplayed : Reachable played := (Reachable.new { historyLimit := some 1 }).run _ _
  have he : Reachable e := hplayed.perform files .shutdown
  have hready : ¬e.ready := by decide +kernel
  have hsettings : e.settings = { historyLimit := some 1 } := by decide +kernel
  have hread : (Script.parse text).toOption = some script := by decide +kernel
  have hparse : Script.parse text = .ok script := by
    generalize Script.parse text = parsed at hread
    cases parsed with
    | error error => cases hread
    | ok script => rw [Option.some.inj hread]
  obtain ⟨-, hstate, hshows, hrequests⟩ := he.lifecycle.1 hready
  rw [hsettings] at hstate
  exact ⟨by decide +kernel, hready, hstate, hshows, (hrequests _ (by simp)).1, hparse,
    hplayed.lifecycle.2 files .ron text script hparse⟩

end Dialogue.Engine
