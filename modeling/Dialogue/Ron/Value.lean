import Dialogue.Ron.Lexeme

/-! # RON values

Which texts are values of the settings notation. Only the extent of a value matters here: it is
what has to be skipped where settings hold more than they should. -/

namespace Dialogue.Ron

/-- Elements with commas between them and perhaps after the last, up to and including `close`,
after those already read, which are given in reverse. An element takes at least one character, so a
`bound` as long as the text suffices. -/
def elements {α : Type} (element : Scan α) (close : String) (seen : List α) :
    (bound : List Char) → Scan (List α)
  | [] => failure
  | _ :: bound => do
      gap
      if ← eat close then return seen.reverse
      let x ← element
      if ← comma then elements element close (x :: seen) bound
      else
        expect close
        return (x :: seen).reverse

/-- The inside of a bracket that is already open. -/
def inside {α : Type} (element : Scan α) (close : String) : Scan (List α) := do
  elements element close [] (← get)

/-- A name and the value after its colon. -/
def field {α : Type} (value : String → Scan α) : Scan α := do
  let key ← name
  gap
  expect ":"
  gap
  value key

/-- An optional value: `None`, or `Some` with a value in parentheses. If `bare` the value may stand
alone, and after `Some`, which need not be a whole word, without parentheses. -/
def option {α : Type} (bare : Bool) (value : Scan α) : Scan (Option α) := do
  if ← eat "None" then return none
  let bracket ← if ← eat "Some" then do gap; eat "(" else pure false
  if bracket then
    gap
    let x ← value
    discard comma
    expect ")"
    return some x
  else if bare then return some (← value)
  else failure

/-- Readers for what stands deeper inside a value: directly below it, and in a container. -/
structure Below where
  value : Scan Unit
  element : Scan Unit

/-- A key of a map and its value. -/
def pair (element : Scan Unit) : Scan Unit := do
  element
  gap
  expect ":"
  gap
  element

/-- The inside of parentheses, where the first name decides whether they hold fields. -/
def parenthesised (element : Scan Unit) : Scan Unit := do
  gap
  let s ← get
  let named := ((do discard name; gap; return ← eat ":" : Scan Bool).run' s).getD false
  if named then discard <| inside (field fun _ => element) ")"
  else discard <| inside element ")"

/-- A value whose parts are read by `below`, or not at all. -/
def form (bare : Bool) (below : Option Below) : Scan Unit := do
  let deeper (read : Below → Scan Unit) : Scan Unit := (below.map read).getD failure
  let s ← get
  for text in ["true", "false"] do
    if ← word text then return
  if ← word "Some" then
    set s
    discard <| option bare (deeper (·.value))
    return
  if ← word "None" then return
  if ← eat "()" then return
  for text in ["inf", "-inf", "NaN"] do
    if ← word text then return
  if ← (discard name *> pure true) <|> pure false then
    gap
    if ← eat "(" then deeper fun b => parenthesised b.element
    return
  match s with
  | '(' :: r => set r; deeper fun b => parenthesised b.element
  | '[' :: r => set r; deeper fun b => discard <| inside b.element "]"
  | '{' :: r => set r; deeper fun b => discard <| inside (pair b.element) "\x7d"
  | '"' :: _ => text
  | 'r' :: _ => text
  | '\'' :: _ => character
  | _ => number

/-- A value that nests at most `room` levels deep. A container counts as one level and its elements
as another. -/
def value (bare : Bool) : (room : Nat) → Scan Unit
  | 0 => form bare none
  | 1 => form bare (some ⟨value bare 0, failure⟩)
  | room + 2 => form bare (some ⟨value bare (room + 1), value bare room⟩)

end Dialogue.Ron
