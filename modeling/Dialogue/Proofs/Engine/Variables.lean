import Dialogue.Proofs.Engine.Lifecycle
import Dialogue.Proofs.State.Reading

/-!
# Variables along a run

What a variable reads is decided by the latest command that succeeded and bears on it: one that sets
it, one that forgets all variables, or one that restores a state. Every other command leaves the
variables alone. So does a start, since an engine that is not ready has no variables to begin with.
-/

namespace Dialogue

/-! ## What a save text assigns -/

namespace Document

variable {d : Document} {name : String}

/-- The integer that a document assigns to a variable: that of its entry below `variables`, if the
entry holds a scalar. -/
def assigned? (d : Document) (name : String) : Option Int32 :=
  match d.get? [.key "variables", .key name] with
  | some x => if x.hasLeaves then some (intOf (some x)) else none
  | none => none

theorem assigned?_eq_some_iff {value : Int32} :
    d.assigned? name = some value ↔
      ∃ x, d.get? [.key "variables", .key name] = some x ∧ x.hasLeaves ∧
        value = intOf (some x) := by
  rw [assigned?]
  cases d.get? [.key "variables", .key name] with
  | none => simp
  | some x =>
      by_cases h : x.hasLeaves
      · simp only [h, if_true, Option.some.injEq, exists_eq_left', true_and]
        exact eq_comm
      · simp [h]

theorem get?_entry_iff (h : Distinct d) (parent : String) {x : Document} :
    d.get? [.key parent, .key name] = some x ↔ (name, x) ∈ d.entryEntries parent := by
  have hnodup := h.nodup_entryEntries parent
  rw [get?_cons, step?_key]
  unfold entryEntries at hnodup ⊢
  split at hnodup
  · next entries hentries =>
      rw [hentries, Option.bind_some, get?_cons, ← step?_key_eq_some_iff hnodup]
      cases (object entries).step? (.key name) <;> rfl
  · next hother =>
      cases hentry : d.entry? parent with
      | none => simp
      | some y =>
          cases y with
          | object entries => exact absurd hentry (hother entries)
          | _ => simp [step?]

end Document

namespace State

variable {s s' : State} {text id : String}

theorem get?_savedValues {d : Document} (h : d.Distinct) (name : String) :
    (savedValues (d.get? [.key "variables"])).get? name = d.assigned? name := by
  have hentry : d.get? [.key "variables"] = d.entry? "variables" :=
    Document.get?_key (Document.get?_nil d) "variables"
  rw [hentry]
  ext value
  rw [get?_savedValues_entry h, Document.assigned?_eq_some_iff]
  simp only [Document.get?_entry_iff h, Document.hasLeaves_iff, intOf_some]

/-- A restored state has the variables that its text assigns, and no others. -/
theorem values_of_restore (h : s.restore text = .ok s') :
    ∃ d, Document.parse text = .ok d ∧ ∀ name, s'.values.get? name = d.assigned? name := by
  rw [restore] at h
  split at h
  · next d hd =>
      cases h
      obtain ⟨_, -, hdistinct⟩ := Document.exists_object_of_parse hd
      refine ⟨d, hd, fun name ↦ ?_⟩
      rw [restoreFrom_eq]
      exact get?_savedValues hdistinct name
  · cases h

theorem values_advanceTo (s : State) (id : String) : (s.advanceTo id).values = s.values := by
  rw [advanceTo]
  split <;> rfl

theorem values_popHistory (h : s.popHistory? = some (id, s')) : s'.values = s.values := by
  obtain ⟨newest, -, heq⟩ := Option.map_eq_some_iff.mp h
  cases heq
  rfl

end State

namespace Engine

variable {files : Files} {e e₀ : Engine} {name : String}

/-! ## Events -/

/-- What a command makes of a variable if it succeeds on a ready engine: an integer, or no value.
Most commands make nothing of it. -/
def Command.assignment? (name : String) : Command → Option (Option Int32)
  | .setVariable n value => if n = name then some (some value) else none
  | .reset | .shutdown => some none
  | .loadState text => (Document.parse text).toOption.map fun d ↦ d.assigned? name
  | _ => none

/-- What a request makes of a variable. -/
def event? (name : String) (e : Engine) (r : Request) : Option (Option Int32) :=
  if e.ready && !service.refuses e r then r.2.assignment? name else none

/-- What becomes of a variable in a run, one event after the other. -/
def events (name : String) (e : Engine) : List Request → List (Option Int32)
  | [] => []
  | r :: requests => (event? name e r).toList ++ events name (service.next e r) requests

theorem event?_of_refuses {r : Request} (h : service.refuses e r) : event? name e r = none := by
  rw [event?, if_neg (by simp [h])]

theorem event?_of_not_ready (h : ¬e.ready) (r : Request) : event? name e r = none := by
  rw [event?, if_neg (by simp [h])]

theorem values_install (e : Engine) (script : Script) :
    (e.install script).1.state.values = e.state.values := by
  rcases state_install e script with hstate | ⟨id, -, hstate⟩
  · rw [hstate]
  · rw [hstate]
    rfl

theorem get?_values_of_effect {e' : Engine} {c : Command} (h : Effect files e c e')
    (hready : e.ready) : e'.state.values.get? name =
      (c.assignment? name).getD (e.state.values.get? name) := by
  have hmove {id : String} (hmoves : Moves e id e') :
      e'.state.values.get? name = e.state.values.get? name := by
    rw [hmoves.state_eq, State.values_advanceTo]
  cases h with
  | init => rfl
  | shutdown =>
      rw [shutdown, if_pos hready]
      rfl
  | loadScript _ _ => exact congrArg (·.get? name) (values_install e _)
  | loadScriptFile _ _ => exact congrArg (·.get? name) (values_install e _)
  | loadState _ hstate =>
      obtain ⟨d, hparse, hvalues⟩ := State.values_of_restore hstate
      rw [Command.assignment?, hparse]
      exact hvalues name
  | goto hmoves => exact hmove hmoves
  | choose _ _ hmoves => exact hmove hmoves
  | advance _ _ hmoves => exact hmove hmoves
  | back _ hpop => exact congrArg (·.get? name) (State.values_popHistory hpop)
  | @setVariable n value _ =>
      rw [Command.assignment?]
      refine (Table.get?_insert e.state.values n name value).trans ?_
      split <;> rfl
  | reset _ => rfl

/-- A request makes of a variable what its event says, and without one leaves it as it is. -/
theorem get?_values_next (e : Engine) (r : Request) (name : String) :
    (service.next e r).state.values.get? name =
      (event? name e r).getD (e.state.values.get? name) := by
  by_cases hrefuses : service.refuses e r
  · rw [event?_of_refuses hrefuses, service.next_of_refuses hrefuses]
    rfl
  by_cases hready : e.ready
  · have hevent : event? name e r = r.2.assignment? name := if_pos (by simp [hready, hrefuses])
    rcases perform_atomic r.1 e r.2 with ⟨error, herror, -⟩ | ⟨-, heffect⟩
    · simp [service, herror, Except.isOk, Except.toBool] at hrefuses
    · rw [hevent]
      exact get?_values_of_effect heffect hready
  · -- Only a start succeeds here besides an end, and neither touches the values of such an engine.
    rw [event?_of_not_ready hready]
    by_cases hinit : r.2 = .init
    · have hnext : service.next e r = e.init := by
        change (e.perform r.1 r.2).engine = _
        rw [hinit]
        rfl
      rw [hnext]
      rfl
    · have hnext : service.next e r = e := engine_perform_of_not_ready hready hinit
      rw [hnext]
      rfl

/-! ## Runs -/

theorem get?_values_after (e : Engine) (requests : List Request) (name : String) :
    (service.after e requests).state.values.get? name =
      (events name e requests).getLast?.getD (e.state.values.get? name) := by
  induction requests generalizing e with
  | nil => rfl
  | cons r requests ih =>
      rw [Service.after_cons, ih, get?_values_next, events, List.getLast?_append]
      cases (events name (service.next e r) requests).getLast? with
      | some value? => rfl
      | none => cases event? name e r <;> rfl

/-- An engine with which nothing was done: it was never started, or a setup just built it. -/
inductive Fresh : Engine → Prop
  | new (settings : Settings) : Fresh (new settings)
  | build {setup : Setup} {files : Files} {read : Settings.Reader} {e : Engine}
      {warnings : List Warning} : setup.build files read = .ok (e, warnings) → Fresh e

theorem Fresh.reachable (h : Fresh e) : Reachable e := by
  cases h with
  | new settings => exact .new settings
  | build hbuild => exact .build hbuild

theorem Fresh.values_eq (h : Fresh e) : e.state.values = .empty := by
  cases h with
  | new settings => rfl
  | build hbuild =>
      obtain ⟨settings, ⟨-, rfl⟩ | ⟨script, -, rfl⟩⟩ := build_cases hbuild
      · rfl
      · exact values_install _ script

/-- Without a value a variable is not set and reads 0; an engine that is not ready has no values. -/
theorem Reachable.reads (h : Reachable e) (name : String) :
    e.hasVariable name = (e.state.values.get? name).isSome ∧
    e.valueOf name = (e.state.values.get? name).getD 0 := by
  by_cases hready : e.ready
  · exact ⟨by rw [hasVariable, hready]; rfl, if_pos hready⟩
  · rw [h.eq_new hready]
    exact ⟨rfl, rfl⟩

/-- Whatever was done to a fresh engine, a variable reads as the latest event made it that bears on
it: a successful assignment of that variable sets it, a successful reset and the end of a ready
engine leave it unset, and a restored text sets it if it assigns it and leaves it unset otherwise.
Before the first such event, and as long as the engine is not ready, it is unset and reads 0. A
request that is refused, comes too early or is none of these does not change what it reads. -/
theorem Fresh.variable_latest (h : Fresh e₀) (requests : List Request) (name : String) :
    let e := service.after e₀ requests
    let latest := (events name e₀ requests).getLast?.getD none
    e.hasVariable name = latest.isSome ∧ e.valueOf name = latest.getD 0 ∧
    (¬e.ready → e.hasVariable name = false ∧ e.valueOf name = 0) ∧
    ∀ r, ¬e.ready ∨ service.refuses e r ∨ r.2.assignment? name = none →
      (service.next e r).hasVariable name = e.hasVariable name ∧
      (service.next e r).valueOf name = e.valueOf name := by
  intro e latest
  have hreachable : Reachable e := h.reachable.after requests
  obtain ⟨hhas, hvalue⟩ := hreachable.reads name
  have hlatest : e.state.values.get? name = latest := by
    rw [get?_values_after, h.values_eq]
    rfl
  refine ⟨by rw [hhas, hlatest], by rw [hvalue, hlatest], fun hready ↦ ?_, fun r hr ↦ ?_⟩
  · rw [hreachable.eq_new hready]
    exact ⟨rfl, rfl⟩
  · have hnone : event? name e r = none := by
      rcases hr with hready | hrefuses | hassignment
      · exact event?_of_not_ready hready r
      · exact event?_of_refuses hrefuses
      · rw [event?, hassignment, ite_self]
    have hsame : (service.next e r).state.values.get? name = e.state.values.get? name := by
      rw [get?_values_next, hnone]
      rfl
    obtain ⟨hhas', hvalue'⟩ := (hreachable.after [r]).reads name
    rw [Service.after_cons, Service.after_nil, hsame] at hhas' hvalue'
    exact ⟨hhas'.trans hhas.symm, hvalue'.trans hvalue.symm⟩

/-- A restored text assigns one of two variables; the other one is set after it, and a refused move
and a restart that did not happen change neither. After the engine has ended they are gone. -/
theorem Fresh.variable_latest_restored :
    let files : Files := fun _ ↦ .error .notFound
    let text := "\x7b\"variables\":\x7b\"a\":\"7x\",\"b\":[]\x7d\x7d"
    let before : List Request := [(files, .setVariable "a" 1), (files, .init),
      (files, .setVariable "b" 2), (files, .loadState text), (files, .goto "a"),
      (files, .loadState "[")]
    let restart : List Request := [(files, .shutdown), (files, .setVariable "a" 3), (files, .init)]
    let e := service.after (Engine.new {}) before
    let e' := service.after (Engine.new {}) (before ++ restart)
    e.hasVariable "a" ∧ e.valueOf "a" = 7 ∧ e.hasVariable "b" = false ∧
    e'.hasVariable "a" = false ∧ e'.valueOf "a" = 0 := by
  intro files text before restart e e'
  have ha : events "a" (Engine.new {}) before = [some 7] := by decide +kernel
  have hb : events "b" (Engine.new {}) before = [some 2, none] := by decide +kernel
  have ha' : events "a" (Engine.new {}) (before ++ restart) = [some 7, none] := by decide +kernel
  obtain ⟨hhas, hvalue, -⟩ := (Fresh.new {}).variable_latest before "a"
  obtain ⟨hhasb, -⟩ := (Fresh.new {}).variable_latest before "b"
  obtain ⟨hhas', hvalue', -⟩ := (Fresh.new {}).variable_latest (before ++ restart) "a"
  rw [ha] at hhas hvalue
  rw [hb] at hhasb
  rw [ha'] at hhas' hvalue'
  exact ⟨hhas, hvalue, hhasb, hhas', hvalue'⟩

end Engine

end Dialogue
