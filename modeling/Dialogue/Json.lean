/-! # JSON

The values of RFC 8259. An object lists all its members, so a name may occur twice, and a number
keeps the text it was written with. -/

namespace Dialogue

inductive Json where
  | object (members : List (String × Json))
  | array (items : List Json)
  | string (text : String)
  | number (text : String)
  | bool (value : Bool)
  | null
  /-- A string, or an object with a name, in which an escaped surrogate lacks its other half. It
  is well-formed but denotes no text. -/
  | unpaired
deriving Repr, Inhabited

namespace Json

def ofNat (n : Nat) : Json := .number n.repr

def ofInt (v : Int32) : Json := .number v.toInt.repr

def text? : Json → Option String
  | .string text => some text
  | _ => none

def items? : Json → Option (List Json)
  | .array items => some items
  | _ => none

/-- The values of a record with given field names: an object that has each of them once, and any
other members besides, or an array of as many items. -/
def fields? (names : List String) : Json → Option (List Json)
  | .object members => names.mapM fun name =>
      match members.filter (·.1 = name) with
      | [(_, value)] => some value
      | _ => none
  | .array items => if items.length = names.length then some items else none
  | _ => none

end Json

end Dialogue
