import Mathlib.Data.PFun
import Dialogue.Document.Reader
import Dialogue.Table

/-! # Reading with a cursor

Documents can be read from the bytes of a text, over which a cursor is moved. Nothing in the types
keeps the cursor inside the text or between its characters, or a loop from going on forever. So a
run may have no outcome, it may panic where it takes what is not there, and it leaves a record of
where the cursor stood and of what was taken and called. -/

namespace Dialogue.Document.Cursor

open Reader (maxDepth)

/-! ## Runs -/

inductive Event where
  /-- The cursor came to stand before a byte. -/
  | stood (pos : Nat)
  /-- The characters between two bytes were taken. -/
  | taken (start stop : Nat)
  /-- The bytes from one on were taken. -/
  | takenBytes (start : Nat)
  /-- An entry was replaced, among as many as there were. -/
  | replaced (slot size : Nat)
  /-- A reader of values was called. -/
  | called (depth : Nat)
  /-- A reader that was called at the byte `start` has read what it should. -/
  | returned (start stop : Nat)
deriving DecidableEq, Repr

/-- Where the cursor stands, and what has happened, the latest event first. -/
structure State where
  pos : Nat
  record : List Event
deriving DecidableEq, Repr

namespace State

/-- The state of a run that starts at a byte. -/
def start (pos : Nat) : State := ⟨pos, [.stood pos]⟩

def note (s : State) (e : Event) : State := { s with record := e :: s.record }

def move (s : State) (bytes : Nat) : State :=
  { s with pos := s.pos + bytes }.note (.stood (s.pos + bytes))

end State

/-- Why a run has no result. -/
inductive Stop where
  | malformed (e : SyntaxError)
  | panic
deriving DecidableEq, Repr

abbrev Run := ExceptT Stop (StateT State Part)

def note (e : Event) : Run Unit := modify (·.note e)

def move (bytes : Nat) : Run Unit := modify (·.move bytes)

def position : Run Nat := return (← get).pos

def fail {α : Type} (cause : Cause) (offset : Nat) : Run α := throw (.malformed ⟨cause, offset⟩)

/-- Notes how far a reader has come. -/
def advancing {α : Type} (read : Run α) : Run α := do
  let start ← position
  let x ← read
  note (.returned start (← position))
  return x

section

variable {α σ : Type}

/-- What a round of a loop leads to: the end of the loop, or another round. -/
def next : Except Stop (α ⊕ σ) × State → (Except Stop α × State) ⊕ (σ × State)
  | (.error e, s) => .inl (.error e, s)
  | (.ok (.inl y), s) => .inl (.ok y, s)
  | (.ok (.inr x), s) => .inr (x, s)

/-- Goes round with what `round` leaves until there is a result. A loop that is never left has no
outcome. -/
def loop (round : σ → Run (α ⊕ σ)) (x : σ) : Run α := ExceptT.mk fun s =>
  PFun.fix (fun c : σ × State => ((round c.1).run.run c.2).map next) (x, s)

end

/-! ## Bytes and characters -/

/-- The byte of an ASCII character. -/
def byte (c : Char) : UInt8 := c.toUInt8

def isBlankByte (b : UInt8) : Bool :=
  b = byte ' ' || b = byte '\t' || b = byte '\n' || b = byte '\r'

def isDigitByte (b : UInt8) : Bool := byte '0' ≤ b && b ≤ byte '9'

section

variable (text : String)

/-- The byte after the cursor. -/
def peek : Run (Option UInt8) := return text.toByteArray[(← get).pos]?

/-- The characters between two bytes. -/
def take (start stop : Nat) : Run String := do
  note (.taken start stop)
  if start ≤ stop ∧ String.Pos.Raw.isValid text ⟨start⟩ ∧ String.Pos.Raw.isValid text ⟨stop⟩ then
    return String.Pos.Raw.extract text ⟨start⟩ ⟨stop⟩
  else throw .panic

/-- The bytes after the cursor. -/
def takeBytes : Run (List UInt8) := do
  let start ← position
  note (.takenBytes start)
  if start ≤ text.utf8ByteSize then return text.toByteArray.toList.drop start
  else throw .panic

def skipWhile (p : UInt8 → Bool) : Run Unit :=
  loop (fun _ => do
    if (← peek text).any p then
      move 1
      return .inr ()
    else return .inl ()) ()

def skipIf (p : UInt8 → Bool) : Run Unit := do
  if (← peek text).any p then move 1 else return ()

def nextChar : Run (Option Char) := do
  match (← take text (← position) text.utf8ByteSize).toList with
  | [] => return none
  | c :: _ =>
      move c.utf8Size
      return some c

/-! ## Tokens -/

/-- The characters of a string whose opening quote is at `start`, up to the closing one, after those
already seen. -/
def characters (start : Nat) : (seen : String) → Run String :=
  loop fun seen => do
    match ← nextChar text with
    | none => fail .unterminatedString start
    | some c =>
        if c = '"' then return .inl seen
        else if c = '\\' then
          match ← nextChar text with
          | none => fail .unterminatedString start
          | some c => return .inr (seen.push (Text.Quoted.unescape c))
        else return .inr (seen.push c)

def string : Run String := advancing do
  let start ← position
  move 1
  characters text start ""

def fraction : Run Unit := do
  if (← peek text) = some (byte '.') then
    move 1
    skipWhile text isDigitByte
  else return ()

def exponent : Run Unit := do
  if (← peek text).any fun b => b = byte 'e' || b = byte 'E' then
    move 1
    skipIf text fun b => b = byte '+' || b = byte '-'
    skipWhile text isDigitByte
  else return ()

def number : Run Document := advancing do
  let start ← position
  skipIf text (· = byte '-')
  if (← peek text).any isDigitByte then
    skipWhile text isDigitByte
    fraction text
    exponent text
    return .number (← take text start (← position))
  else fail .invalidNumber start

/-- The words that stand for documents, with their numbers of bytes. -/
def words : List (String × Nat × Document) :=
  [("true", 4, .bool true), ("false", 5, .bool false), ("null", 4, .null)]

def word : Run Document := do
  let rest ← takeBytes text
  match words.find? fun w => w.1.toByteArray.toList.isPrefixOf rest with
  | some (_, size, d) =>
      move size
      return d
  | none => fail .unexpectedValue (← position)

/-! ## Containers -/

variable {σ : Type}

/-- Elements with commas between them, up to and including `close`. Each adds to what there is. -/
def elements (element : σ → Run σ) (close : Char) : σ → Run σ :=
  loop fun x => do
    let x ← element x
    skipWhile text isBlankByte
    let b ← peek text
    if b = some (byte ',') then
      move 1
      return .inr x
    else if b = some (byte close) then
      move 1
      return .inl x
    else fail (.expectedSeparator close) (← position)

/-- What stands from an opening bracket to `close`. -/
def enclosed (element : σ → Run σ) (close : Char) (x : σ) : Run σ := do
  move 1
  skipWhile text isBlankByte
  if (← peek text) = some (byte close) then
    move 1
    return x
  else elements text element close x

/-- A quoted key and the colon after it. -/
def key : Run String := do
  skipWhile text isBlankByte
  if (← peek text) = some (byte '"') then
    let name ← string text
    skipWhile text isBlankByte
    if (← peek text) = some (byte ':') then
      move 1
      return name
    else fail .expectedColon (← position)
  else fail .expectedKey (← position)

end

/-- The entries of an object that is being read, and for each key the slot of its entry. -/
structure Entries where
  list : List (String × Document) := []
  slots : Table Nat := .empty

/-- Gives `key` a value, in the slot that it has or in a new one. -/
def Entries.put (entries : Entries) (key : String) (value : Document) : Run Entries :=
  match entries.slots.get? key with
  | some slot => do
      note (.replaced slot entries.list.length)
      if slot < entries.list.length then
        return { entries with list := entries.list.modify slot fun e => (e.1, value) }
      else throw .panic
  | none =>
      return ⟨entries.list ++ [(key, value)], entries.slots.insert key entries.list.length⟩

-- A container is read one level deeper than where it stands, and past the last level it is refused.
mutual

def value (text : String) (depth : Nat) : Run Document := do
  note (.called depth)
  advancing do
    skipWhile text isBlankByte
    let b ← peek text
    if b = some (byte '{') then object text (depth + 1)
    else if b = some (byte '[') then array text (depth + 1)
    else if b = some (byte '"') then return .string (← string text)
    else if b.any fun b => b = byte '-' || isDigitByte b then number text
    else word text
termination_by 2 * (maxDepth - depth) + 1

/-- An object, from its opening brace on. -/
def object (text : String) (depth : Nat) : Run Document := do
  note (.called depth)
  advancing do
    if maxDepth < depth then fail .tooDeep (← position)
    else
      let entries ← enclosed text (fun (entries : Entries) => do
        let name ← key text
        entries.put name (← value text depth)) '}' {}
      return .object entries.list
termination_by 2 * (maxDepth + 1 - depth)

/-- An array, from its opening bracket on. -/
def array (text : String) (depth : Nat) : Run Document := do
  note (.called depth)
  advancing do
    if maxDepth < depth then fail .tooDeep (← position)
    else
      let items ← enclosed text (fun items => return items ++ [← value text depth]) ']' []
      return .array items
termination_by 2 * (maxDepth + 1 - depth)

end

/-- The document that a text starts with. -/
def parse (text : String) : Run Document := do
  skipWhile text isBlankByte
  if (← peek text) = some (byte '{') then object text 0
  else fail .expectedObject (← position)

end Dialogue.Document.Cursor
