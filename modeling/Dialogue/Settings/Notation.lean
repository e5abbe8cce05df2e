import Dialogue.Ron.Value
import Dialogue.Settings

/-! # Settings in RON

Settings are written as a record in RON. Fields may be missing or unknown, and none that is known
occurs twice. -/

namespace Dialogue

namespace Settings

open Ron (Scan)

/-- What one field says. -/
inductive Field where
  | validateOnLoad (value : Bool)
  | historyLimit (value : Option Nat)
  | unknown

namespace Field

def validateOnLoad? : Field → Option Bool
  | .validateOnLoad value => some value
  | _ => none

def historyLimit? : Field → Option (Option Nat)
  | .historyLimit value => some value
  | _ => none

end Field

/-- The extensions of the notation that a text may ask for before its record. Only the first changes
how these settings are read. -/
def extensionNames : List String :=
  ["implicit_some", "unwrap_newtypes", "unwrap_variant_newtypes"]

/-- The names of a group of extensions, after those already read; each takes a step. -/
def extensionList (seen : List String) : (bound : List Char) → Scan (List String)
  | [] => failure
  | _ :: bound => do
      let name ← Ron.name
      if name ∉ extensionNames then failure
      let more ← Ron.comma
      if !Ron.startsWith Ron.isNameChar (← get) then return name :: seen
      else if more then extensionList (name :: seen) bound
      else failure

def extensionGroup : Scan (List String) := do
  for mark in ["#", "!", "[", "enable", "("] do
    Ron.expect mark
    Ron.gap
  let names ← extensionList [] (← get)
  Ron.gap
  for mark in [")", "]"] do
    Ron.expect mark
    Ron.gap
  return names

/-- The extensions that a text enables, group by group; each takes a step. -/
def extensions (seen : List String) : (bound : List Char) → Scan (List String)
  | [] => return seen
  | _ :: bound => do
      Ron.gap
      if Ron.startsWith (· = '#') (← get) then
        let names ← extensionGroup
        extensions (names ++ seen) bound
      else return seen

/-- How deep the values of fields may nest. -/
def room : Nat := 126

def flag : Scan Bool := do
  if ← Ron.word "true" then return true
  if ← Ron.word "false" then return false
  failure

/-- The value of the field with a given name. -/
def field (bare : Bool) : String → Scan Field
  | "validate_on_load" => .validateOnLoad <$> flag
  | "history_limit" => .historyLimit <$> Ron.option bare (Ron.unsigned Text.Decimal.bound64)
  | _ => (fun _ => .unknown) <$> Ron.value bare room

/-- The settings that fields give, unless one of them is given twice. -/
def ofFields? (fields : List Field) : Option Settings := do
  let validate := fields.filterMap Field.validateOnLoad?
  let limit := fields.filterMap Field.historyLimit?
  if 1 < validate.length || 1 < limit.length then none
  return { validateOnLoad := validate.head?.getD false, historyLimit := limit.head?.getD none }

def record : Scan Settings := do
  let enabled ← extensions [] (← get)
  if Ron.startsWith Ron.isNameChar (← get) then
    if (← Ron.name) ≠ "EngineConfig" then failure
  Ron.gap
  Ron.expect "("
  let fields ← Ron.inside (Ron.field (field ("implicit_some" ∈ enabled))) ")"
  Ron.gap
  if (← get) ≠ [] then failure
  match ofFields? fields with
  | some settings => return settings
  | none => failure

/-- The reader of programs that are given no other. It does not say where a text goes wrong. -/
def Reader.ron : Reader := fun text =>
  match record.run' text.toList with
  | some settings => .ok settings
  | none => .error "not a record of settings"

end Settings

end Dialogue
