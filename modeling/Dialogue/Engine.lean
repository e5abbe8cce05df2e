import Dialogue.Cue
import Dialogue.Engine.Error

/-! # The engine

An engine plays one script. Between `init` and `shutdown` it is ready; at other times it holds no
script, operations that can fail do, and what it shows is neutral. An operation gives its result,
the engine after it and the warnings it made on the way. -/

namespace Dialogue

structure Engine where
  script : Script
  state : State
  settings : Settings
  ready : Bool
deriving DecidableEq, Repr

namespace Engine

/-- What an operation leads to. -/
structure Outcome (ε : Type) where
  result : Except ε Unit
  engine : Engine
  warnings : List Warning

namespace Outcome

variable {ε ε' : Type}

def done (engine : Engine) (warnings : List Warning := []) : Outcome ε := ⟨.ok (), engine, warnings⟩

def failed (engine : Engine) (e : ε) (warnings : List Warning := []) : Outcome ε :=
  ⟨.error e, engine, warnings⟩

def mapError (f : ε → ε') (o : Outcome ε) : Outcome ε' :=
  ⟨o.result.mapError f, o.engine, o.warnings⟩

end Outcome

/-- An engine that was never started. -/
def new (settings : Settings) : Engine where
  script := .empty
  state := .fresh settings.historyLimit
  settings := settings
  ready := false

/-! ## Lifecycle -/

def init (e : Engine) : Engine := { e with ready := true }

/-- Drops the script and the state. An engine that is not ready stays as it is. -/
def shutdown (e : Engine) : Engine := if e.ready then new e.settings else e

/-! ## What an engine shows -/

def currentNode? (e : Engine) : Option Node :=
  if e.ready then e.script.node? e.state.current else none

def currentId (e : Engine) : String := if e.ready then e.state.current else ""

def canGoBack (e : Engine) : Bool := e.ready && e.state.canGoBack

def valueOf (e : Engine) (name : String) : Int32 := if e.ready then e.state.valueOf name else 0

def hasVariable (e : Engine) (name : String) : Bool := e.ready && e.state.hasVariable name

def cues (e : Engine) : List Cue := (e.currentNode?.map Node.cues).getD []

def save (e : Engine) : Except NavigationError String :=
  if e.ready then .ok e.state.save else .error .notReady

/-! ## Scripts -/

/-- Replaces the script. Without a current node the entry of the new script becomes current. -/
def install (e : Engine) (script : Script) : Engine × List Warning :=
  let state :=
    if e.state.hasCurrent then e.state
    else (script.entry.map e.state.setCurrent).getD e.state
  ({ e with script, state },
    if e.settings.validateOnLoad then script.dangling.map .dangling else [])

def loadScript (e : Engine) (text : String) : Outcome EngineError :=
  if !e.ready then .failed e (.navigation .notReady)
  else
    match Script.parse text with
    | .ok script =>
        let (e, warnings) := e.install script
        .done e warnings
    | .error error => .failed e (.script error) [.rejectedScript error]

/-- A file that holds no script is refused without a warning. -/
def loadScriptFile (files : Files) (e : Engine) (path : String) : Outcome EngineError :=
  if !e.ready then .failed e (.navigation .notReady)
  else
    match Script.load files path with
    | .ok script =>
        let (e, warnings) := e.install script
        .done e warnings
    | .error error => .failed e (.script error)

/-! ## Moves -/

/-- Goes to a node of the script. -/
def goto (e : Engine) (id : String) : Outcome NavigationError :=
  if !e.ready then .failed e .notReady
  else if e.script.contains id then .done { e with state := e.state.advanceTo id }
  else .failed e (.unknownNode id) [.unknownNode id]

/-- Follows a choice of the current node. -/
def choose (e : Engine) (index : Nat) : Outcome NavigationError :=
  if !e.ready then .failed e .notReady
  else
    match e.currentNode? with
    | none => .failed e .noCurrentNode
    | some node =>
        match node.choices[index]? with
        | none => .failed e (.choiceOutOfRange index node.choices.length)
        | some choice => e.goto choice.next

/-- Follows the next link of the current node. -/
def advance (e : Engine) : Outcome NavigationError :=
  if !e.ready then .failed e .notReady
  else
    match e.currentNode? with
    | none => .failed e .noCurrentNode
    | some node => if node.hasNext then e.goto node.next else .failed e .noNext

/-- Goes back to the newest history entry, which is thereby used up. -/
def back (e : Engine) : Outcome NavigationError :=
  if !e.ready then .failed e .notReady
  else
    match e.state.popHistory? with
    | none => .failed e .historyEmpty
    | some (id, state) => .done { e with state := state.setCurrent id }

/-! ## State -/

def setVariable (e : Engine) (name : String) (value : Int32) : Outcome NavigationError :=
  if e.ready then .done { e with state := e.state.setVariable name value }
  else .failed e .notReady

/-- Forgets the playthrough and keeps the script. -/
def reset (e : Engine) : Outcome NavigationError :=
  if e.ready then .done { e with state := e.state.reset } else .failed e .notReady

/-- Restores a saved state. The ids in it need not name nodes of the script. -/
def loadState (e : Engine) (text : String) : Outcome EngineError :=
  if !e.ready then .failed e (.navigation .notReady)
  else
    match e.state.restore text with
    | .ok state => .done { e with state }
    | .error error => .failed e (.save error) [.rejectedSave error]

end Engine

end Dialogue
