import Dialogue.Files
import Dialogue.Settings.Notation

/-! # Reading settings

Settings come from a file and are read as a reader says. Whatever reader there is, what it refuses
is refused with its own reason. -/

namespace Dialogue

/-- Why there are no settings. -/
inductive SettingsError where
  /-- The reader refused the text, for a reason. -/
  | malformed {reason : String}
  | unreadable (e : ReadError)
deriving DecidableEq, Repr

def SettingsError.message : SettingsError → String
  | @SettingsError.malformed reason => "RON deserialization error: " ++ reason
  | .unreadable e => e.message

namespace Settings

def parse (text : String) (read : Reader := .ron) : Except SettingsError Settings :=
  match read text with
  | .ok settings => .ok settings
  | .error reason => .error (@SettingsError.malformed reason)

/-- The settings in the file at a path. -/
def load (files : Files) (path : String) (read : Reader := .ron) :
    Except SettingsError Settings :=
  match files path with
  | .ok text => parse text read
  | .error e => .error (.unreadable e)

end Settings

end Dialogue
