import Dialogue.Engine.Command
import Dialogue.Engine.Setup

/-!
# What a command does

A command fails and leaves the engine as it is, or it succeeds and has its effect. `Effect` lists
the effects with what has to hold for each, and `perform_atomic` is the only place where the
operations are looked into: what holds of a new engine and is kept by every effect holds of every
engine that is reached.
-/

namespace Dialogue.Engine

variable {files : Files} {e e' : Engine}

/-! ## Success or no trace -/

namespace Outcome

variable {ε ε' : Type}

/-- The operation on `e` fails and leaves it as it is, or succeeds with an effect. -/
def Atomic (o : Outcome ε) (e : Engine) (effect : Engine → Prop) : Prop :=
  (∃ error, o.result = .error error ∧ o.engine = e) ∨ (o.result = .ok () ∧ effect o.engine)

theorem atomic_failed (e : Engine) (effect : Engine → Prop) (error : ε)
    (warnings : List Warning) : (failed e error warnings).Atomic e effect :=
  .inl ⟨error, rfl, rfl⟩

theorem atomic_done {e : Engine} {effect : Engine → Prop} (warnings : List Warning)
    (h : effect e') : (done e' warnings : Outcome ε).Atomic e effect :=
  .inr ⟨rfl, h⟩

theorem Atomic.imp {o : Outcome ε} {e : Engine} {effect effect' : Engine → Prop}
    (h : o.Atomic e effect) (himp : ∀ e', effect e' → effect' e') : o.Atomic e effect' :=
  Or.imp_right (And.imp_right (himp o.engine)) h

theorem Atomic.engine_eq {o : Outcome ε} {e : Engine} {effect : Engine → Prop}
    (h : o.Atomic e effect) {error : ε} (herror : o.result = .error error) : o.engine = e := by
  rcases h with ⟨_, -, hengine⟩ | ⟨hok, -⟩
  · exact hengine
  · rw [hok] at herror
    cases herror

theorem Atomic.effect_of_ok {o : Outcome ε} {e : Engine} {effect : Engine → Prop}
    (h : o.Atomic e effect) (hok : o.result = .ok ()) : effect o.engine := by
  rcases h with ⟨_, herror, -⟩ | ⟨-, heffect⟩
  · rw [hok] at herror
    cases herror
  · exact heffect

/-- What holds of the engine and is brought about by the effect holds afterwards. -/
theorem Atomic.holds {o : Outcome ε} {e : Engine} {effect I : Engine → Prop}
    (h : o.Atomic e effect) (he : I e) (heffect : ∀ e', effect e' → I e') : I o.engine := by
  rcases h with ⟨_, -, hsame⟩ | ⟨-, h⟩
  · rw [hsame]
    exact he
  · exact heffect _ h

theorem Atomic.mapError {o : Outcome ε} {e : Engine} {effect : Engine → Prop}
    (h : o.Atomic e effect) (f : ε → ε') : (o.mapError f).Atomic e effect := by
  rcases h with ⟨error, hresult, hengine⟩ | ⟨hresult, heffect⟩
  · refine .inl ⟨f error, ?_, hengine⟩
    rw [Outcome.mapError, hresult]
    rfl
  · refine .inr ⟨?_, heffect⟩
    rw [Outcome.mapError, hresult]
    rfl

end Outcome

open Outcome (atomic_failed atomic_done)

/-! ## Effects -/

/-- A ready engine goes to a node of its script. -/
structure Moves (e : Engine) (id : String) (e' : Engine) : Prop where
  ready : e.ready
  contains : e.script.contains id
  eq : e' = { e with state := e.state.advanceTo id }

namespace Moves

variable {id : String}

theorem ready_after (h : Moves e id e') : e'.ready := by
  rw [h.eq]
  exact h.ready

theorem settings_eq (h : Moves e id e') : e'.settings = e.settings := by
  rw [h.eq]

theorem script_eq (h : Moves e id e') : e'.script = e.script := by
  rw [h.eq]

theorem state_eq (h : Moves e id e') : e'.state = e.state.advanceTo id := by
  rw [h.eq]

end Moves

@[simp] theorem script_install (e : Engine) (script : Script) :
    (e.install script).1.script = script := rfl

/-- Installing a script leaves the state as it is or makes the entry of the script current. -/
theorem state_install (e : Engine) (script : Script) :
    (e.install script).1.state = e.state ∨
      ∃ id ∈ script.entry, (e.install script).1.state = e.state.setCurrent id := by
  rw [install]
  dsimp only
  split
  · exact .inl rfl
  · cases script.entry with
    | none => exact .inl rfl
    | some id => exact .inr ⟨id, rfl, rfl⟩

inductive Effect (files : Files) (e : Engine) : Command → Engine → Prop
  | init : Effect files e .init e.init
  | shutdown : Effect files e .shutdown e.shutdown
  | loadScript {text : String} {script : Script} : e.ready → Script.parse text = .ok script →
      Effect files e (.loadScript text) (e.install script).1
  | loadScriptFile {path : String} {script : Script} : e.ready →
      Script.load files path = .ok script →
      Effect files e (.loadScriptFile path) (e.install script).1
  | loadState {text : String} {state : State} : e.ready → e.state.restore text = .ok state →
      Effect files e (.loadState text) { e with state }
  | goto {id : String} {e' : Engine} : Moves e id e' → Effect files e (.goto id) e'
  | choose {index : Nat} {node : Node} {choice : Choice} {e' : Engine} :
      e.currentNode? = some node → node.choices[index]? = some choice → Moves e choice.next e' →
      Effect files e (.choose index) e'
  | advance {node : Node} {e' : Engine} : e.currentNode? = some node → node.hasNext →
      Moves e node.next e' → Effect files e .advance e'
  | back {id : String} {state : State} : e.ready → e.state.popHistory? = some (id, state) →
      Effect files e .back { e with state := state.setCurrent id }
  | setVariable {name : String} {value : Int32} : e.ready →
      Effect files e (.setVariable name value)
        { e with state := e.state.setVariable name value }
  | reset : e.ready → Effect files e .reset { e with state := e.state.reset }

/-! ## Operations, one by one

What each operation does is said of the operation itself, so that only the one that opens a file
depends on the files. -/

theorem loadScript_atomic (e : Engine) (text : String) :
    (e.loadScript text).Atomic e fun e' ↦
      ∃ script, e.ready ∧ Script.parse text = .ok script ∧ e' = (e.install script).1 := by
  rw [loadScript]
  split
  · exact atomic_failed ..
  · next hready =>
      split
      · next script hscript => exact atomic_done _ ⟨script, by simpa using hready, hscript, rfl⟩
      · exact atomic_failed ..

theorem loadScriptFile_atomic (files : Files) (e : Engine) (path : String) :
    (e.loadScriptFile files path).Atomic e fun e' ↦
      ∃ script, e.ready ∧ Script.load files path = .ok script ∧ e' = (e.install script).1 := by
  rw [loadScriptFile]
  split
  · exact atomic_failed ..
  · next hready =>
      split
      · next script hscript => exact atomic_done _ ⟨script, by simpa using hready, hscript, rfl⟩
      · exact atomic_failed ..

theorem loadState_atomic (e : Engine) (text : String) :
    (e.loadState text).Atomic e fun e' ↦
      ∃ state, e.ready ∧ e.state.restore text = .ok state ∧ e' = { e with state } := by
  rw [loadState]
  split
  · exact atomic_failed ..
  · next hready =>
      split
      · next state hstate => exact atomic_done _ ⟨state, by simpa using hready, hstate, rfl⟩
      · exact atomic_failed ..

theorem goto_atomic (e : Engine) (id : String) : (e.goto id).Atomic e (Moves e id) := by
  rw [goto]
  split
  · exact atomic_failed ..
  · next hready =>
      split
      · next hcontains => exact atomic_done _ ⟨by simpa using hready, hcontains, rfl⟩
      · exact atomic_failed ..

theorem choose_atomic (e : Engine) (index : Nat) :
    (e.choose index).Atomic e fun e' ↦
      ∃ node choice, e.currentNode? = some node ∧ node.choices[index]? = some choice ∧
        Moves e choice.next e' := by
  rw [choose]
  split
  · exact atomic_failed ..
  · split
    · exact atomic_failed ..
    · next node hnode =>
        split
        · exact atomic_failed ..
        · next choice hchoice =>
            exact (goto_atomic e choice.next).imp fun e' hmoves ↦
              ⟨node, choice, hnode, hchoice, hmoves⟩

theorem advance_atomic (e : Engine) :
    e.advance.Atomic e fun e' ↦
      ∃ node, e.currentNode? = some node ∧ node.hasNext ∧ Moves e node.next e' := by
  rw [advance]
  split
  · exact atomic_failed ..
  · split
    · exact atomic_failed ..
    · next node hnode =>
        split
        · next hnext =>
            exact (goto_atomic e node.next).imp fun e' hmoves ↦ ⟨node, hnode, hnext, hmoves⟩
        · exact atomic_failed ..

theorem back_atomic (e : Engine) :
    e.back.Atomic e fun e' ↦
      ∃ id state, e.ready ∧ e.state.popHistory? = some (id, state) ∧
        e' = { e with state := state.setCurrent id } := by
  rw [back]
  split
  · exact atomic_failed ..
  · next hready =>
      split
      · exact atomic_failed ..
      · next id state hpop => exact atomic_done _ ⟨id, state, by simpa using hready, hpop, rfl⟩

theorem setVariable_atomic (e : Engine) (name : String) (value : Int32) :
    (e.setVariable name value).Atomic e fun e' ↦
      e.ready ∧ e' = { e with state := e.state.setVariable name value } := by
  rw [setVariable]
  split
  · next hready => exact atomic_done _ ⟨hready, rfl⟩
  · exact atomic_failed ..

theorem reset_atomic (e : Engine) :
    e.reset.Atomic e fun e' ↦ e.ready ∧ e' = { e with state := e.state.reset } := by
  rw [reset]
  split
  · next hready => exact atomic_done _ ⟨hready, rfl⟩
  · exact atomic_failed ..

/-- Every command fails without a trace or has its effect. -/
theorem perform_atomic (files : Files) (e : Engine) (c : Command) :
    (e.perform files c).Atomic e (Effect files e c) := by
  cases c with
  | init => exact atomic_done _ .init
  | shutdown => exact atomic_done _ .shutdown
  | loadScript text =>
      refine (loadScript_atomic e text).imp ?_
      rintro _ ⟨script, hready, hscript, rfl⟩
      exact .loadScript hready hscript
  | loadScriptFile path =>
      refine (loadScriptFile_atomic files e path).imp ?_
      rintro _ ⟨script, hready, hscript, rfl⟩
      exact .loadScriptFile hready hscript
  | loadState text =>
      refine (loadState_atomic e text).imp ?_
      rintro _ ⟨state, hready, hstate, rfl⟩
      exact .loadState hready hstate
  | goto id => exact ((goto_atomic e id).imp fun _ hmoves ↦ .goto hmoves).mapError _
  | choose index =>
      refine ((choose_atomic e index).imp ?_).mapError _
      rintro e' ⟨node, choice, hnode, hchoice, hmoves⟩
      exact .choose hnode hchoice hmoves
  | advance =>
      refine ((advance_atomic e).imp ?_).mapError _
      rintro e' ⟨node, hnode, hnext, hmoves⟩
      exact .advance hnode hnext hmoves
  | back =>
      refine ((back_atomic e).imp ?_).mapError _
      rintro _ ⟨id, state, hready, hpop, rfl⟩
      exact .back hready hpop
  | setVariable name value =>
      refine ((setVariable_atomic e name value).imp ?_).mapError _
      rintro _ ⟨hready, rfl⟩
      exact .setVariable hready
  | reset =>
      refine ((reset_atomic e).imp ?_).mapError _
      rintro _ ⟨hready, rfl⟩
      exact .reset hready

/-! ## Engines that are reached -/

/-- The engines that a host can have: one that was never started, one that a setup built, with any
reader of settings, and what commands make of these, failed ones included. The files may change
between commands. -/
inductive Reachable : Engine → Prop
  | new (settings : Settings) : Reachable (new settings)
  | build {setup : Setup} {files : Files} {read : Settings.Reader} {e : Engine}
      {warnings : List Warning} : setup.build files read = .ok (e, warnings) → Reachable e
  | perform (files : Files) {e : Engine} (c : Command) :
      Reachable e → Reachable (e.perform files c).engine

theorem Reachable.run (files : Files) (h : Reachable e) (commands : List Command) :
    Reachable (e.run files commands) := by
  induction commands generalizing e with
  | nil => exact h
  | cons c commands ih => exact ih (h.perform files c)

/-- What is built is a new engine that was started, with the script of the setup if it has one. -/
theorem build_cases {setup : Setup} {read : Settings.Reader} {warnings : List Warning}
    (h : setup.build files read = .ok (e, warnings)) :
    ∃ settings, (setup.script? files = .ok none ∧ e = (new settings).init) ∨
      ∃ script, setup.script? files = .ok (some script) ∧
        e = ((new settings).init.install script).1 := by
  rw [Setup.build] at h
  split at h
  · cases h
  · next settings hsettings =>
      split at h
      · cases h
      · next hscript =>
          cases h
          exact ⟨settings, .inl ⟨hscript, rfl⟩⟩
      · next script hscript =>
          obtain rfl := congrArg Prod.fst (Except.ok.inj h)
          exact ⟨settings, .inr ⟨script, hscript, rfl⟩⟩

/-- What new engines satisfy and every effect keeps holds of every engine that is reached. -/
theorem Reachable.invariant {I : Engine → Prop} (hnew : ∀ settings, I (.new settings))
    (hinstall : ∀ e script, e.ready → I e → I (e.install script).1)
    (heffect : ∀ files e c e', Effect files e c e' → I e → I e') (h : Reachable e) : I e := by
  induction h with
  | new settings => exact hnew settings
  | @build setup files read e warnings hbuild =>
      have hinit (settings : Settings) : I (Engine.new settings).init :=
        heffect files _ _ _ .init (hnew settings)
      obtain ⟨settings, ⟨-, rfl⟩ | ⟨script, -, rfl⟩⟩ := build_cases hbuild
      · exact hinit settings
      · exact hinstall _ script rfl (hinit settings)
  | perform files c _ ih =>
      exact (perform_atomic files _ c).holds ih fun e' heff ↦ heffect files _ c e' heff ih

end Dialogue.Engine
