/-! # Nodes

The units of a dialogue: a line, a branching point, a change of scene or an ending. Every text
field uses the empty text for what is not set. -/

namespace Dialogue

/-- What role a node plays. The role binds nothing: any node may have choices or a next link. -/
inductive NodeKind where
  | dialogue
  | choice
  | scene
  | ending
deriving DecidableEq, Repr, Inhabited

namespace NodeKind

def name : NodeKind → String
  | .dialogue => "dialogue"
  | .choice => "choice"
  | .scene => "scene"
  | .ending => "end"

/-- The kind with a given name. -/
def ofName? : String → Option NodeKind
  | "dialogue" => some .dialogue
  | "choice" => some .choice
  | "scene" => some .scene
  | "end" => some .ending
  | _ => none

/-- The kind that a script means by a name, where every unknown name means dialogue. -/
def ofName (name : String) : NodeKind := (ofName? name).getD .dialogue

@[simp] theorem ofName?_name (k : NodeKind) : ofName? k.name = some k := by cases k <;> rfl

end NodeKind

/-- A labelled link to another node. -/
structure Choice where
  text : String := ""
  next : String := ""
deriving DecidableEq, Repr, Inhabited

structure Node where
  id : String := ""
  kind : NodeKind := .dialogue
  speaker : String := ""
  text : String := ""
  next : String := ""
  choices : List Choice := []
  background : String := ""
  character : String := ""
  expression : String := ""
  music : String := ""
  sound : String := ""
deriving DecidableEq, Repr, Inhabited

def Node.hasNext (n : Node) : Bool := n.next ≠ ""

end Dialogue
