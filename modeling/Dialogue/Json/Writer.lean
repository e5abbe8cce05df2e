import Dialogue.Json
import Dialogue.Text.Hex

/-! # Writing JSON

The compact form, without blanks. Strings escape quotes, backslashes and the control characters
below U+0020, and nothing else. -/

namespace Dialogue.Json

def escape (c : Char) : List Char :=
  match c with
  | '"' => ['\\', '"']
  | '\\' => ['\\', '\\']
  | '\x08' => ['\\', 'b']
  | '\x0c' => ['\\', 'f']
  | '\n' => ['\\', 'n']
  | '\r' => ['\\', 'r']
  | '\t' => ['\\', 't']
  | c =>
      if c.toNat < 0x20 then
        ['\\', 'u', '0', '0', Text.Hex.digit (c.toNat / 16), Text.Hex.digit (c.toNat % 16)]
      else [c]

def quote (text : String) : List Char := '"' :: text.toList.flatMap escape ++ ['"']

mutual

def render : Json → List Char
  | .object [] => ['{', '}']
  | .object (m :: ms) => '{' :: renderMember m ++ renderMembers ms
  | .array [] => ['[', ']']
  | .array (v :: vs) => '[' :: v.render ++ renderItems vs
  | .string text => quote text
  | .number text => text.toList
  | .bool true => "true".toList
  | .bool false => "false".toList
  | .null => "null".toList
  | .unpaired => "\"\\ud800\"".toList

def renderMember : String × Json → List Char
  | (name, value) => quote name ++ ':' :: value.render

/-- The members after the first, and the closing brace. -/
def renderMembers : List (String × Json) → List Char
  | [] => ['}']
  | m :: ms => ',' :: renderMember m ++ renderMembers ms

/-- The items after the first, and the closing bracket. -/
def renderItems : List Json → List Char
  | [] => [']']
  | v :: vs => ',' :: v.render ++ renderItems vs

end

def write (j : Json) : String := String.ofList j.render

end Dialogue.Json
