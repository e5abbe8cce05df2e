import Dialogue.Document
import Dialogue.Text.Decimal
import Dialogue.Text.Pieces

/-! # Paths

A path names a place in a document by the keys and indices that lead to it from the root. Written
out, as in `nodes[2].choices[0].text`, a key stands after a dot and an index in brackets; the empty
text is the path of the root. -/

namespace Dialogue

inductive Segment where
  | key (name : String)
  | index (i : Nat)
deriving DecidableEq, Repr

abbrev Path := List Segment

namespace Path

/-- An index, written as what stands after the opening bracket: digits for a number of
64 bits, then the closing bracket at the end. -/
def index? (piece : List Char) : Option Segment :=
  match piece.reverse with
  | ']' :: digits => (Text.Decimal.nat? Text.Decimal.bound64 digits.reverse).map .index
  | _ => none

/-- The segments between two dots: a key, which may be empty, and indices. -/
def part? (part : List Char) : Option Path :=
  match Text.pieces (· = '[') part with
  | [] => none
  | name :: indices => (indices.mapM index?).map (.key (String.ofList name) :: ·)

/-- The segments before the first dot, where indices alone address the root. -/
def firstPart? (part : List Char) : Option Path :=
  match Text.pieces (· = '[') part with
  | [] :: i :: indices => (i :: indices).mapM index?
  | _ => part? part

/-- The path that a text denotes, if it is written like one. -/
def ofText? (text : String) : Option Path :=
  if text = "" then some []
  else
    match Text.pieces (· = '.') text.toList with
    | [] => none
    | first :: parts => do
        let path ← firstPart? first
        let paths ← parts.mapM part?
        return path ++ paths.flatten

end Path

namespace Document

/-- One step into a document: keys lead into objects only, and indices into arrays only. -/
def step? (d : Document) (segment : Segment) : Option Document :=
  match d, segment with
  | .object entries, .key name => (entries.find? (·.1 = name)).map (·.2)
  | .array items, .index i => items[i]?
  | _, _ => none

/-- What stands at a path. -/
def get? (d : Document) : Path → Option Document
  | [] => some d
  | segment :: path => (d.step? segment).bind (·.get? path)

/-- What stands at a path that is given as text. -/
def at? (d : Document) (path : String) : Option Document :=
  (Path.ofText? path).bind d.get?

/-! ## What a query found

A query may find nothing, and each reading has a neutral value for that and for a document of the
wrong kind. -/

def textOf (found : Option Document) : String :=
  (found.bind scalarText?).getD ""

def intOf (found : Option Document) : Int32 := Text.Decimal.leadingInt (textOf found)

def flagOf (found : Option Document) : Bool := textOf found = "true"

/-- The items of an array up to the last one that has leaves. -/
def itemsOf : Option Document → List Document
  | some (.array items) => (items.reverse.dropWhile (!·.hasLeaves)).reverse
  | _ => []

def sizeOf (found : Option Document) : Nat := (itemsOf found).length

/-- The keys of an object whose values have leaves. -/
def keysOf : Option Document → List String
  | some (.object entries) => (entries.filter (·.2.hasLeaves)).map (·.1)
  | _ => []

end Document

end Dialogue
