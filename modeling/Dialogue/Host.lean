import Dialogue.Engine
import Dialogue.Host.Message

/-! # The host boundary

An engine as a host sees it that knows only truth values, 32-bit integers and texts. Calls that can
fail answer whether they succeeded, and readings are neutral where there is no current node. -/

namespace Dialogue.Host

/-! ## Calls -/

inductive Call where
  | init
  | shutdown
  | reset
  | loadScript (text : String)
  | loadState (text : String)
  | setVariable (name : String) (value : Int32)
  | goto (id : String)
  | choose (index : Int32)
  | advance
  | back
deriving DecidableEq, Repr

/-- Whether an operation succeeded, and the engine after it. -/
def report {ε : Type} (o : Engine.Outcome ε) : Option Bool × Engine :=
  (some o.result.isOk, o.engine)

/-- What a call answers, if anything, and the engine after it. A negative index names no choice. -/
def call (e : Engine) : Call → Option Bool × Engine
  | .init => (some true, e.init)
  | .shutdown => (none, e.shutdown)
  | .reset => (none, e.reset.engine)
  | .loadScript text => report (e.loadScript text)
  | .loadState text => report (e.loadState text)
  | .setVariable name value => (none, (e.setVariable name value).engine)
  | .goto id => report (e.goto id)
  | .choose index => if index < 0 then (some false, e) else report (e.choose index.toInt.toNat)
  | .advance => report e.advance
  | .back => report e.back

def new : Engine := .new {}

/-- A ready engine that plays the script that a text denotes. -/
def withScript? (text : String) : Option Engine :=
  match Script.parse text with
  | .ok script => some ((Engine.new {}).init.install script).1
  | .error _ => none

/-! ## Readings -/

/-- A field of the current node. -/
def field (e : Engine) (get : Node → String) : String := (e.currentNode?.map get).getD ""

def kindName (e : Engine) : String := (e.currentNode?.map (·.kind.name)).getD "unknown"

/-- The number of choices, or the greatest integer if there are more. -/
def choiceCount (e : Engine) : Int32 :=
  match e.currentNode? with
  | some node => Int32.ofNat (min node.choices.length 0x7FFFFFFF)
  | none => 0

/-- A field of a choice of the current node. -/
def choiceField (e : Engine) (index : Int32) (get : Choice → String) : String :=
  if index < 0 then ""
  else ((e.currentNode?.bind (·.choices[index.toInt.toNat]?)).map get).getD ""

def speaker (e : Engine) : String := field e Node.speaker
def text (e : Engine) : String := field e Node.text
def nextId (e : Engine) : String := field e Node.next
def background (e : Engine) : String := field e Node.background
def character (e : Engine) : String := field e Node.character
def expression (e : Engine) : String := field e Node.expression
def music (e : Engine) : String := field e Node.music
def sound (e : Engine) : String := field e Node.sound
def choiceText (e : Engine) (index : Int32) : String := choiceField e index Choice.text
def choiceNext (e : Engine) (index : Int32) : String := choiceField e index Choice.next

def save (e : Engine) : String :=
  match e.save with
  | .ok text => text
  | .error _ => ""

/-! ## Messages -/

def nodeMessage (e : Engine) : String :=
  match e.currentNode? with
  | some node => node.toJson.write
  | none => Json.null.write

def cuesMessage (e : Engine) : String := (Json.array (e.cues.map Cue.toJson)).write

def danglingMessage (e : Engine) : String :=
  (Json.array (e.script.dangling.map Script.Dangling.toJson)).write

end Dialogue.Host
