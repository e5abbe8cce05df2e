import Dialogue.Document
import Dialogue.Document.Numeral
import Dialogue.Text.Quoted
import Dialogue.Text.Reader

/-! # Reading documents

A text is a document if, after blanks, it starts with an object; whatever follows that object is
not looked at. What stops a reader is a cause and the text from the fault on. -/

namespace Dialogue.Document

/-- What is wrong at the place where reading stopped. -/
inductive Cause where
  | expectedObject
  | expectedKey
  | expectedColon
  | expectedSeparator (close : Char)
  | unterminatedString
  | invalidNumber
  | unexpectedValue
  | tooDeep
deriving DecidableEq, Repr

/-- Why a text is no document; `offset` counts the bytes before the fault. -/
structure SyntaxError where
  cause : Cause
  offset : Nat
deriving DecidableEq, Repr

def SyntaxError.message (e : SyntaxError) : String :=
  match e.cause with
  | .expectedObject => "expected '\x7b' at offset " ++ e.offset.repr
  | .expectedKey => "expected a quoted key at offset " ++ e.offset.repr
  | .expectedColon => "expected ':' at offset " ++ e.offset.repr
  | .expectedSeparator close =>
      "expected ',' or '" ++ String.singleton close ++ "' at offset " ++ e.offset.repr
  | .unterminatedString => "unterminated string starting at offset " ++ e.offset.repr
  | .invalidNumber => "invalid number at offset " ++ e.offset.repr
  | .unexpectedValue => "unexpected value at offset " ++ e.offset.repr
  | .tooDeep => "document nested too deeply at offset " ++ e.offset.repr

namespace Reader

open Text (skipBlanks)

structure Fault where
  cause : Cause
  rest : List Char
deriving DecidableEq, Repr

/-- A string, from the character after its opening quote on. -/
def string : Text.Reader Fault String := fun s =>
  match Text.Quoted.scan [] s with
  | some (text, r) => .ok (String.ofList text, r)
  | none => .error ⟨.unterminatedString, '"' :: s⟩

def scalar : Text.Reader Fault Document
  | '"' :: s => string.as .string s
  | 't' :: 'r' :: 'u' :: 'e' :: s => .ok (.bool true, s)
  | 'f' :: 'a' :: 'l' :: 's' :: 'e' :: s => .ok (.bool false, s)
  | 'n' :: 'u' :: 'l' :: 'l' :: s => .ok (.null, s)
  | s =>
      match Numeral.split? s with
      | some (text, r) => .ok (.number (String.ofList text), r)
      | none =>
          match s with
          | '-' :: _ => .error ⟨.invalidNumber, s⟩
          | _ => .error ⟨.unexpectedValue, s⟩

/-- A quoted key and the colon after it. -/
def key : Text.Reader Fault String := fun s =>
  match skipBlanks s with
  | '"' :: r =>
      match string r with
      | .error e => .error e
      | .ok (name, r) =>
          match skipBlanks r with
          | ':' :: r => .ok (name, r)
          | r => .error ⟨.expectedColon, r⟩
  | r => .error ⟨.expectedKey, r⟩

def entry (value : Text.Reader Fault Document) : Text.Reader Fault (String × Document) := fun s =>
  match key s with
  | .error e => .error e
  | .ok (name, r) => value.as (name, ·) r

/-- An object, from the character after its opening brace on. -/
def object (value : Text.Reader Fault Document) : Text.Reader Fault Document :=
  (Text.Reader.enclosed (entry value) '}' (.mk (.expectedSeparator '}'))).as
    fun entries => .object (collapse entries)

/-- An array, from the character after its opening bracket on. -/
def array (value : Text.Reader Fault Document) : Text.Reader Fault Document :=
  (Text.Reader.enclosed value ']' (.mk (.expectedSeparator ']'))).as .array

/-- A value whose containers nest at most `room` deep. -/
def value : (room : Nat) → Text.Reader Fault Document
  | 0, s =>
      match skipBlanks s with
      | '{' :: r => .error ⟨.tooDeep, '{' :: r⟩
      | '[' :: r => .error ⟨.tooDeep, '[' :: r⟩
      | r => scalar r
  | room + 1, s =>
      match skipBlanks s with
      | '{' :: r => object (value room) r
      | '[' :: r => array (value room) r
      | r => scalar r

/-- How deep containers may nest below the root. -/
def maxDepth : Nat := 256

def root : Text.Reader Fault Document := fun s =>
  match skipBlanks s with
  | '{' :: r => object (value maxDepth) r
  | r => .error ⟨.expectedObject, r⟩

end Reader

/-- The number of bytes of a text in UTF-8. -/
def utf8Size (s : List Char) : Nat := s.foldr (fun c n => c.utf8Size + n) 0

/-- The document that a text starts with. -/
def parse (text : String) : Except SyntaxError Document :=
  match Reader.root text.toList with
  | .ok (d, _) => .ok d
  | .error e => .error ⟨e.cause, utf8Size text.toList - utf8Size e.rest⟩

end Dialogue.Document
