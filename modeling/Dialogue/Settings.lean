/-! # Settings

What an engine may be told before it plays: both have defaults, so that no settings are settings
too. -/

namespace Dialogue

structure Settings where
  /-- Whether loading a script warns of its dangling links. -/
  validateOnLoad : Bool := false
  /-- How many history entries are kept, if not all. -/
  historyLimit : Option Nat := none
deriving DecidableEq, Repr, Inhabited

/-- A way to read settings from a text: it gives settings, or a reason why there are none. -/
abbrev Settings.Reader := String → Except String Settings

end Dialogue
