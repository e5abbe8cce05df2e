import Dialogue.Document.Path
import Dialogue.Document.Reader
import Dialogue.Files
import Dialogue.Script

/-! # Reading scripts

A script is written as a document whose `nodes` are objects. Fields that are missing, or that are
no scalars, read as the empty text, so only a text that is no document fails to be a script. -/

namespace Dialogue

namespace Document

/-- The text at the key `name` below a path. -/
def fieldAt (d : Document) (path : Path) (name : String) : String :=
  textOf (d.get? (path ++ [.key name]))

/-- The paths of the items that the array at a path has. -/
def itemPathsAt (d : Document) (path : Path) : List Path :=
  (List.range (sizeOf (d.get? path))).map fun i => path ++ [.index i]

def choiceAt (d : Document) (path : Path) : Choice where
  text := d.fieldAt path "text"
  next := d.fieldAt path "next"

def nodeAt (d : Document) (path : Path) : Node where
  id := d.fieldAt path "id"
  kind := .ofName (d.fieldAt path "type")
  speaker := d.fieldAt path "speaker"
  text := d.fieldAt path "text"
  next := d.fieldAt path "next"
  choices := (d.itemPathsAt (path ++ [.key "choices"])).map d.choiceAt
  background := d.fieldAt path "background"
  character := d.fieldAt path "character"
  expression := d.fieldAt path "expression"
  music := d.fieldAt path "bgm"
  sound := d.fieldAt path "se"

end Document

namespace Script

def ofDocument (d : Document) : Script :=
  ofNodes ((d.itemPathsAt [.key "nodes"]).map d.nodeAt)

end Script

/-- Why there is no script. -/
inductive ScriptError where
  | malformed (e : Document.SyntaxError)
  | unreadable (e : ReadError)
deriving DecidableEq, Repr

def ScriptError.message : ScriptError → String
  | .malformed e => "malformed script: " ++ e.message
  | .unreadable e => e.message

namespace Script

def parse (text : String) : Except ScriptError Script :=
  match Document.parse text with
  | .ok d => .ok (ofDocument d)
  | .error e => .error (.malformed e)

/-- The script in the file at a path. -/
def load (files : Files) (path : String) : Except ScriptError Script :=
  match files path with
  | .ok text => parse text
  | .error e => .error (.unreadable e)

theorem load_eq_parse {files : Files} {path text : String} (h : files path = .ok text) :
    load files path = parse text := by
  rw [load, h]

end Script

end Dialogue
