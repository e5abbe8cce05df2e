import Dialogue.Node

/-! # Audio cues

What the audio layer of a host should play when a node is entered. -/

namespace Dialogue

inductive Cue where
  | music (name : String) (looped : Bool)
  | sound (name : String)
deriving DecidableEq, Repr

/-- The cues of a node: its music, which loops, and then its sound. -/
def Node.cues (n : Node) : List Cue :=
  (if n.music = "" then [] else [.music n.music true]) ++
    (if n.sound = "" then [] else [.sound n.sound])

end Dialogue
