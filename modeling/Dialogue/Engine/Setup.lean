import Dialogue.Engine

/-! # Setting up engines

A setup says where settings and script come from; a path wins over what is given directly. How a
settings file is read is up to a reader. -/

namespace Dialogue.Engine

structure Setup where
  settings : Settings := {}
  settingsPath : Option String := none
  script : Option Script := none
  scriptPath : Option String := none

namespace Setup

def settings? (s : Setup) (files : Files) (read : Settings.Reader := .ron) :
    Except SettingsError Settings :=
  match s.settingsPath with
  | some path => Settings.load files path read
  | none => .ok s.settings

def script? (s : Setup) (files : Files) : Except ScriptError (Option Script) :=
  match s.scriptPath with
  | some path => (Script.load files path).map some
  | none => .ok s.script

/-- A ready engine with the script installed, and the warnings of that. Of two faults, that of the
settings is reported. -/
def build (s : Setup) (files : Files) (read : Settings.Reader := .ron) :
    Except EngineError (Engine × List Warning) :=
  match s.settings? files read with
  | .error e => .error (.settings e)
  | .ok settings =>
      match s.script? files with
      | .error e => .error (.script e)
      | .ok none => .ok ((new settings).init, [])
      | .ok (some script) => .ok ((new settings).init.install script)

end Setup

end Dialogue.Engine
