import Dialogue.Table

/-! # Playthrough state

Where a playthrough stands: the current node, the nodes to go back to, and the variables. A state
knows nothing of scripts, so its ids need not name nodes. -/

namespace Dialogue

/-- The last entries of a list, as many as a limit allows. -/
def lastUpTo {α : Type} (limit : Option Nat) (xs : List α) : List α :=
  match limit with
  | none => xs
  | some n => xs.drop (xs.length - n)

/-- The history is listed from the oldest entry on, and `limit` bounds its length. No current node
is the empty id. -/
structure State where
  current : String := ""
  history : List String := []
  values : Table Int32 := {}
  limit : Option Nat := none
deriving DecidableEq, Repr

namespace State

/-- A state before the first move. -/
def fresh (limit : Option Nat) : State where
  limit := limit

def hasCurrent (s : State) : Bool := s.current ≠ ""

def setCurrent (s : State) (id : String) : State := { s with current := id }

/-- Adds an entry to the history, which drops its oldest entries beyond the limit. -/
def pushHistory (s : State) (id : String) : State :=
  { s with history := lastUpTo s.limit (s.history ++ [id]) }

/-- Moves on to another node and remembers the one that is left, if there is one. -/
def advanceTo (s : State) (id : String) : State :=
  (if s.hasCurrent then s.pushHistory s.current else s).setCurrent id

/-- Takes the newest entry off the history. -/
def popHistory? (s : State) : Option (String × State) :=
  s.history.getLast?.map fun id => (id, { s with history := s.history.dropLast })

def canGoBack (s : State) : Bool := !s.history.isEmpty

def setVariable (s : State) (name : String) (value : Int32) : State :=
  { s with values := s.values.insert name value }

/-- The value of a variable, which is 0 before it is set. -/
def valueOf (s : State) (name : String) : Int32 := (s.values.get? name).getD 0

def hasVariable (s : State) (name : String) : Bool := s.values.contains name

def reset (s : State) : State := fresh s.limit

@[simp] theorem limit_fresh (limit : Option Nat) : (fresh limit).limit = limit := rfl
@[simp] theorem limit_setCurrent (s : State) (id : String) :
    (s.setCurrent id).limit = s.limit := rfl
@[simp] theorem limit_pushHistory (s : State) (id : String) :
    (s.pushHistory id).limit = s.limit := rfl
@[simp] theorem limit_reset (s : State) : s.reset.limit = s.limit := rfl

end State

end Dialogue
