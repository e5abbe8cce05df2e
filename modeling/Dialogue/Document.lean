/-! # Documents

The tree that scripts and save texts are written in. An object lists its entries in the order in
which their keys were first seen, and a number keeps the text it was written with. -/

namespace Dialogue

inductive Document where
  | object (entries : List (String × Document))
  | array (items : List Document)
  | string (text : String)
  | number (text : String)
  | bool (value : Bool)
  | null
deriving Repr, Inhabited

namespace Document

/-- The text of a scalar. `null` reads as the empty text, and a container has none. -/
def scalarText? : Document → Option String
  | .string text | .number text => some text
  | .bool true => some "true"
  | .bool false => some "false"
  | .null => some ""
  | .object _ | .array _ => none

def isNull : Document → Bool
  | .null => true
  | _ => false

mutual

/-- Whether a document is a scalar or holds one at any depth. -/
def hasLeaves : Document → Bool
  | .object entries => entriesHaveLeaves entries
  | .array items => itemsHaveLeaves items
  | _ => true

def entriesHaveLeaves : List (String × Document) → Bool
  | [] => false
  | (_, value) :: entries => value.hasLeaves || entriesHaveLeaves entries

def itemsHaveLeaves : List Document → Bool
  | [] => false
  | item :: items => item.hasLeaves || itemsHaveLeaves items

end

/-- Gives `key` a value. A key that is already present keeps its place and loses its old value. -/
def put (key : String) (value : Document) : List (String × Document) → List (String × Document)
  | [] => [(key, value)]
  | e :: entries =>
      if e.1 = key then (key, value) :: entries else e :: put key value entries

/-- The entries of an object that is written with the given ones, in which keys may repeat. -/
def collapse (written : List (String × Document)) : List (String × Document) :=
  written.foldl (fun entries e => put e.1 e.2 entries) []

end Document

end Dialogue
