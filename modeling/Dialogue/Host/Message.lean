import Dialogue.Cue
import Dialogue.Json.Writer
import Dialogue.Script

/-! # Messages

What a host is told as JSON: nodes, cues and dangling links. -/

namespace Dialogue

/-! ## Nodes -/

def Choice.toJson (c : Choice) : Json :=
  .object [("text", .string c.text), ("next", .string c.next)]

def Choice.ofJson? (j : Json) : Option Choice := do
  match ← j.fields? ["text", "next"] with
  | [text, next] => return { text := ← text.text?, next := ← next.text? }
  | _ => none

/-- A kind is given by its name, or by an object whose one member has that name and no value. -/
def NodeKind.ofJson? : Json → Option NodeKind
  | .string name => ofName? name
  | .object [(name, .null)] => ofName? name
  | _ => none

namespace Node

def fieldNames : List String :=
  ["id", "type", "speaker", "text", "next", "choices", "background", "character", "expression",
    "bgm", "soundEffect"]

def toJson (n : Node) : Json :=
  .object <| fieldNames.zip
    [.string n.id, .string n.kind.name, .string n.speaker, .string n.text, .string n.next,
      .array (n.choices.map Choice.toJson), .string n.background, .string n.character,
      .string n.expression, .string n.music, .string n.sound]

/-- Reads a node strictly: all fields are there, and each is of its own type. -/
def ofJson? (j : Json) : Option Node := do
  match ← j.fields? fieldNames with
  | [id, kind, speaker, text, next, choices, background, character, expression, music, sound] =>
      return {
        id := ← id.text?
        kind := ← NodeKind.ofJson? kind
        speaker := ← speaker.text?
        text := ← text.text?
        next := ← next.text?
        choices := ← (← choices.items?).mapM Choice.ofJson?
        background := ← background.text?
        character := ← character.text?
        expression := ← expression.text?
        music := ← music.text?
        sound := ← sound.text? }
  | _ => none

end Node

/-! ## Cues and dangling links -/

def Cue.toJson : Cue → Json
  | .music name looped =>
      .object [("kind", .string "play_bgm"), ("name", .string name), ("looped", .bool looped)]
  | .sound name => .object [("kind", .string "play_se"), ("name", .string name)]

def Script.Link.toJson : Script.Link → Json
  | .next => .null
  | .choice i => .ofNat i

def Script.Dangling.toJson (d : Script.Dangling) : Json :=
  .object
    [("from", .string d.source), ("choice", d.link.toJson), ("target", .string d.target),
      ("message", .string d.message)]

end Dialogue
