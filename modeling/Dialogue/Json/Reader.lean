import Dialogue.Json
import Dialogue.Text.Decimal
import Dialogue.Text.Hex
import Dialogue.Text.Reader

/-! # Reading JSON

The grammar of RFC 8259, to the letter: one value with nothing but blanks around it. -/

namespace Dialogue.Json

namespace Reader

open Text (skipBlanks)

/-! ## Strings

A string is read as code points first, because an escape may denote half of a surrogate pair. -/

/-- The number that four hexadecimal digits write. -/
def hex4? (a b c d : Char) : Option Nat := do
  let a ← Text.Hex.value? a
  let b ← Text.Hex.value? b
  let c ← Text.Hex.value? c
  let d ← Text.Hex.value? d
  return ((a * 16 + b) * 16 + c) * 16 + d

/-- What a backslash and a letter other than `u` stand for. -/
def unescape? : Char → Option Char
  | '"' => some '"'
  | '\\' => some '\\'
  | '/' => some '/'
  | 'b' => some '\x08'
  | 'f' => some '\x0c'
  | 'n' => some '\n'
  | 'r' => some '\r'
  | 't' => some '\t'
  | _ => none

/-- The code points up to the closing quote, after those already seen, which are given in
reverse. -/
def codePoints (seen : List Nat) : Text.Reader Unit (List Nat)
  | '"' :: s => .ok (seen.reverse, s)
  | '\\' :: 'u' :: a :: b :: c :: d :: s =>
      match hex4? a b c d with
      | some n => codePoints (n :: seen) s
      | none => .error ()
  | '\\' :: c :: s =>
      match unescape? c with
      | some c => codePoints (c.toNat :: seen) s
      | none => .error ()
  | c :: s => if c.toNat < 0x20 then .error () else codePoints (c.toNat :: seen) s
  | [] => .error ()

/-- The text of code points, in which a high surrogate and the low one after it are one
character. -/
def join? : List Nat → Option (List Char)
  | [] => some []
  | n :: ns =>
      if 0xD800 ≤ n ∧ n < 0xDC00 then
        match ns with
        | m :: ns =>
            if 0xDC00 ≤ m ∧ m < 0xE000 then
              (join? ns).map (Char.ofNat (0x10000 + (n - 0xD800) * 0x400 + (m - 0xDC00)) :: ·)
            else none
        | [] => none
      else if 0xDC00 ≤ n ∧ n < 0xE000 then none
      else (join? ns).map (Char.ofNat n :: ·)

/-- A string, from the character after its opening quote on. -/
def string : Text.Reader Unit (Option String) :=
  (codePoints []).as fun ns => (join? ns).map String.ofList

/-! ## Numbers -/

/-- At least one digit, after what is already taken. -/
def digits? (taken : List Char) (s : List Char) : Option (List Char × List Char) :=
  match Text.Decimal.splitDigits s with
  | ([], _) => none
  | (ds, r) => some (taken ++ ds, r)

/-- The whole part, in which no digit follows a leading zero. -/
def whole? : List Char → Option (List Char × List Char)
  | '-' :: '0' :: s => some (['-', '0'], s)
  | '-' :: s => digits? ['-'] s
  | '0' :: s => some (['0'], s)
  | s => digits? [] s

def fraction? (taken : List Char) : List Char → Option (List Char × List Char)
  | '.' :: s => digits? (taken ++ ['.']) s
  | s => some (taken, s)

def exponent? (taken : List Char) : List Char → Option (List Char × List Char)
  | c :: s =>
      if c = 'e' ∨ c = 'E' then
        match s with
        | '+' :: s => digits? (taken ++ [c, '+']) s
        | '-' :: s => digits? (taken ++ [c, '-']) s
        | s => digits? (taken ++ [c]) s
      else some (taken, c :: s)
  | [] => some (taken, [])

def number : Text.Reader Unit Json := fun s =>
  let split := do
    let (taken, s) ← whole? s
    let (taken, s) ← fraction? taken s
    exponent? taken s
  match split with
  | some (text, r) => .ok (.number (String.ofList text), r)
  | none => .error ()

/-! ## Values -/

def scalar : Text.Reader Unit Json
  | '"' :: s => string.as (fun text => (text.map .string).getD .unpaired) s
  | 't' :: 'r' :: 'u' :: 'e' :: s => .ok (.bool true, s)
  | 'f' :: 'a' :: 'l' :: 's' :: 'e' :: s => .ok (.bool false, s)
  | 'n' :: 'u' :: 'l' :: 'l' :: s => .ok (.null, s)
  | s => number s

def member (value : Text.Reader Unit Json) : Text.Reader Unit (Option String × Json) := fun s =>
  match skipBlanks s with
  | '"' :: r =>
      match string r with
      | .error e => .error e
      | .ok (name, r) =>
          match skipBlanks r with
          | ':' :: r => value.as (name, ·) r
          | _ => .error ()
  | _ => .error ()

/-- The object with the given members, if all their names are texts. -/
def objectOf (members : List (Option String × Json)) : Json :=
  match members.mapM fun m => m.1.map (·, m.2) with
  | some members => .object members
  | none => .unpaired

/-- A value whose containers nest at most `room` deep. -/
def value : (room : Nat) → Text.Reader Unit Json
  | 0, s => scalar (skipBlanks s)
  | room + 1, s =>
      match skipBlanks s with
      | '{' :: r => (Text.Reader.enclosed (member (value room)) '}' fun _ => ()).as objectOf r
      | '[' :: r => (Text.Reader.enclosed (value room) ']' fun _ => ()).as .array r
      | r => scalar r

end Reader

/-- The value that a text denotes. The text is never too short for its own nesting. -/
def parse? (text : String) : Option Json :=
  match Reader.value text.length text.toList with
  | .ok (j, r) => if Text.skipBlanks r = [] then some j else none
  | .error _ => none

end Dialogue.Json
