import Dialogue.Document
import Dialogue.Table

/-! # The flat view

A document as a table from written paths to the texts of its scalars. -/

namespace Dialogue.Document

/-- The written path of the entry `key` of the object at `path`. -/
def entryPath (path key : String) : String :=
  if path = "" then key else path ++ "." ++ key

/-- The written path of an item of the array at `path`. -/
def itemPath (path : String) (i : Nat) : String := path ++ "[" ++ i.repr ++ "]"

mutual

/-- The scalars of a document that stands at `path`, in reading order. -/
def leaves (path : String) : Document → List (String × String)
  | .object entries => entryLeaves path entries
  | .array items => itemLeaves path 0 items
  | .string text | .number text => [(path, text)]
  | .bool true => [(path, "true")]
  | .bool false => [(path, "false")]
  | .null => [(path, "")]

def entryLeaves (path : String) : List (String × Document) → List (String × String)
  | [] => []
  | (key, value) :: entries => leaves (entryPath path key) value ++ entryLeaves path entries

def itemLeaves (path : String) (i : Nat) : List Document → List (String × String)
  | [] => []
  | item :: items => leaves (itemPath path i) item ++ itemLeaves path (i + 1) items

end

/-- Where two scalars have the same written path, the table keeps the later one. -/
def flatten (d : Document) : Table String := Table.ofList (leaves "" d)

end Dialogue.Document
