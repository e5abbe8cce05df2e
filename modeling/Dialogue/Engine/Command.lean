import Dialogue.Engine

/-! # Runs

The operations that change an engine as data, and what a list of them leads to. -/

namespace Dialogue.Engine

inductive Command where
  | init
  | shutdown
  | loadScript (text : String)
  | loadScriptFile (path : String)
  | loadState (text : String)
  | goto (id : String)
  | choose (index : Nat)
  | advance
  | back
  | setVariable (name : String) (value : Int32)
  | reset
deriving DecidableEq, Repr

def perform (files : Files) (e : Engine) : Command → Outcome EngineError
  | .init => .done e.init
  | .shutdown => .done e.shutdown
  | .loadScript text => e.loadScript text
  | .loadScriptFile path => e.loadScriptFile files path
  | .loadState text => e.loadState text
  | .goto id => (e.goto id).mapError .navigation
  | .choose index => (e.choose index).mapError .navigation
  | .advance => e.advance.mapError .navigation
  | .back => e.back.mapError .navigation
  | .setVariable name value => (e.setVariable name value).mapError .navigation
  | .reset => e.reset.mapError .navigation

/-- The engine after a list of commands, failed ones included. -/
def run (files : Files) (e : Engine) (commands : List Command) : Engine :=
  commands.foldl (fun e c => (e.perform files c).engine) e

@[simp] theorem run_nil (files : Files) (e : Engine) : e.run files [] = e := rfl

@[simp] theorem run_cons (files : Files) (e : Engine) (c : Command) (cs : List Command) :
    e.run files (c :: cs) = (e.perform files c).engine.run files cs := rfl

theorem run_append (files : Files) (e : Engine) (cs ds : List Command) :
    e.run files (cs ++ ds) = (e.run files cs).run files ds := List.foldl_append

end Dialogue.Engine
