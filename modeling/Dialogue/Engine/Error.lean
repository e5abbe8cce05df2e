import Dialogue.Script.Reading
import Dialogue.Settings.Reading
import Dialogue.State.Save

/-! # Errors and warnings of the engine -/

namespace Dialogue

/-- Why a move is not possible. -/
inductive NavigationError where
  | notReady
  | unknownNode (id : String)
  | noCurrentNode
  | choiceOutOfRange (index count : Nat)
  | noNext
  | historyEmpty
deriving DecidableEq, Repr

def NavigationError.message : NavigationError → String
  | .notReady => "engine is not initialized"
  | .unknownNode id => "no node with id '" ++ id ++ "'"
  | .noCurrentNode => "there is no current node"
  | .choiceOutOfRange index count =>
      "choice " ++ index.repr ++ " out of range (node has " ++ count.repr ++ " choices)"
  | .noNext => "current node has no next node"
  | .historyEmpty => "history is empty"

/-- Why an operation of the engine fails. -/
inductive EngineError where
  | navigation (e : NavigationError)
  | script (e : ScriptError)
  | save (e : State.SaveError)
  | settings (e : SettingsError)
deriving DecidableEq, Repr

def EngineError.message : EngineError → String
  | .navigation e => "navigation error: " ++ e.message
  | .script e => "script error: " ++ e.message
  | .save e => "save state error: " ++ e.message
  | .settings e => "config error: " ++ e.message

/-- What an operation finds worth a warning. -/
inductive Warning where
  | rejectedScript (e : ScriptError)
  | rejectedSave (e : State.SaveError)
  | unknownNode (id : String)
  | dangling (d : Script.Dangling)
deriving DecidableEq, Repr

def Warning.message : Warning → String
  | .rejectedScript e => "rejected script: " ++ e.message
  | .rejectedSave e => "rejected save state: " ++ e.message
  | .unknownNode id => "goto: unknown node '" ++ id ++ "'"
  | .dangling d => d.message

end Dialogue
