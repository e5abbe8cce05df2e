import Dialogue.Document.Path
import Dialogue.Document.Reader
import Dialogue.State

/-! # Save texts

A state is saved as a document with the current node, the variables by name and the history, and
restored from any document. The limit is not saved: what is restored obeys the limit of the state
that it goes into. -/

namespace Dialogue.State

open Text (Quoted.write)

def saveVariable (e : String × Int32) : String :=
  Quoted.write e.1 ++ ":" ++ Text.Decimal.ofInt e.2

def save (s : State) : String :=
  "\x7b\"currentNode\":" ++ Quoted.write s.current ++
    ",\"variables\":\x7b" ++ ",".intercalate (s.values.entries.map saveVariable) ++
    "\x7d,\"history\":[" ++ ",".intercalate (s.history.map Quoted.write) ++ "]\x7d"

/-- The variables that an object assigns. An entry without leaves assigns none, and an entry that
is no scalar assigns 0. -/
def savedValues : Option Document → Table Int32
  | some (.object entries) =>
      .ofList ((entries.filter (·.2.hasLeaves)).map fun e => (e.1, Document.intOf (some e.2)))
  | _ => .empty

/-- The ids that an array lists, without the empty ones. -/
def savedHistory (found : Option Document) : List String :=
  ((Document.itemsOf found).map fun item => Document.textOf (some item)).filter (· ≠ "")

/-- Replaces the variables and the history by saved ones, and the current node if the document
names one. -/
def restoreFrom (s : State) (d : Document) : State :=
  let current := Document.textOf (d.get? [.key "currentNode"])
  let cleared : State :=
    { s with
      current := if current = "" then s.current else current
      values := savedValues (d.get? [.key "variables"])
      history := [] }
  (savedHistory (d.get? [.key "history"])).foldl pushHistory cleared

/-- Why a text restores nothing. -/
inductive SaveError where
  | malformed (e : Document.SyntaxError)
deriving DecidableEq, Repr

def SaveError.message : SaveError → String
  | .malformed e => "malformed save data: " ++ e.message

def restore (s : State) (text : String) : Except SaveError State :=
  match Document.parse text with
  | .ok d => .ok (s.restoreFrom d)
  | .error e => .error (.malformed e)

end Dialogue.State
