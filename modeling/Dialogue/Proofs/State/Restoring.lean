import Dialogue.Proofs.Document.Writing
import Dialogue.Proofs.State.History
import Dialogue.Proofs.Table
import Dialogue.State.Save

/-!
# Restoring what was saved

The text of a state is an object of the grammar, whatever characters its ids and names hold, and
so it is read as the object of `saveEntries`. Restoring takes the variables, the nonempty history
entries and, if there is one, the current node from that object.
-/

namespace Dialogue.State

open Document.Grammar (Value Entry)
open Text (Blanks Enclosed Separated Spaced Quoted.write)

/-! ## The text of a state -/

def valueEntries (values : Table Int32) : List (String × Document) :=
  values.entries.map fun e ↦ (e.1, .number (Text.Decimal.ofInt e.2))

def historyItems (history : List String) : List Document := history.map .string

/-- The entries of the object that the text of a state writes. -/
def saveEntries (s : State) : List (String × Document) :=
  [("currentNode", .string s.current), ("variables", .object (valueEntries s.values)),
    ("history", .array (historyItems s.history))]

theorem entry_saveVariable (e : String × Int32) :
    Entry Value (saveVariable e).toList (e.1, .number (Text.Decimal.ofInt e.2)) := by
  have h := Document.entry_write e.1 (Value.scalar (Document.scalar_ofInt e.2))
  simpa [saveVariable] using h

/-- Each of the three parts of a save text is written as an entry with a key of its own. -/
theorem save_eq (s : State) :
    s.save = "\x7b" ++ (Quoted.write "currentNode" ++ ":" ++ Quoted.write s.current) ++ "," ++
      (Quoted.write "variables" ++ ":" ++
        ("\x7b" ++ ",".intercalate (s.values.entries.map saveVariable) ++ "\x7d")) ++ "," ++
      (Quoted.write "history" ++ ":" ++
        ("[" ++ ",".intercalate (s.history.map Quoted.write) ++ "]")) ++ "\x7d" := by
  have hcurrent : "\x7b\"currentNode\":" = "\x7b" ++ (Quoted.write "currentNode" ++ ":") := rfl
  have hvariables : ",\"variables\":\x7b" =
      "," ++ (Quoted.write "variables" ++ (":" ++ "\x7b")) := rfl
  have hhistory : "\x7d,\"history\":[" =
      "\x7d" ++ ("," ++ (Quoted.write "history" ++ (":" ++ "["))) := rfl
  have hend : "]\x7d" = "]" ++ "\x7d" := rfl
  -- As a rewrite rule `save` would have its literals evaluated.
  unfold save
  simp only [hcurrent, hvariables, hhistory, hend, String.append_assoc]

theorem value_save (s : State) : Value s.save.toList (.object s.saveEntries) := by
  have hcurrent := Document.entry_write "currentNode"
    (Value.scalar (Document.scalar_write s.current))
  have hvariables := Document.entry_write "variables" (Value.object (Text.enclosed_intercalate
    fun (e : String × Int32) (_ : e ∈ s.values.entries) ↦ entry_saveVariable e))
  have hhistory := Document.entry_write "history" (Value.array (Text.enclosed_intercalate
    fun (id : String) (_ : id ∈ s.history) ↦ Value.scalar (Document.scalar_write id)))
  have hentries : Separated (Spaced (Entry Value)) _ s.saveEntries :=
    .cons (.bare hcurrent) (.cons (.bare hvariables) (.one (.bare hhistory)))
  have h := Value.object (.elements hentries)
  rw [save_eq]
  simpa using h

theorem depth_valueEntries (values : Table Int32) :
    Document.entriesDepth (valueEntries values) = 0 := by
  apply Nat.le_zero.mp
  apply Document.entriesDepth_le_iff.mpr
  intro _ hv
  obtain ⟨e, -, rfl⟩ := List.mem_map.mp hv
  exact Nat.le_refl 0

theorem depth_historyItems (history : List String) :
    Document.itemsDepth (historyItems history) = 0 := by
  apply Nat.le_zero.mp
  apply Document.itemsDepth_le_iff.mpr
  intro _ hid
  obtain ⟨id, -, rfl⟩ := List.mem_map.mp hid
  exact Nat.le_refl 0

theorem depth_saveEntries (s : State) : Document.depth (.object s.saveEntries) = 2 := by
  simp [saveEntries, Document.depth, Document.entriesDepth, depth_valueEntries, depth_historyItems]

theorem resolved_valueEntries (values : Table Int32) :
    Document.resolved (.object (valueEntries values)) = .object (valueEntries values) := by
  have hentries : Document.resolvedEntries (valueEntries values) = valueEntries values := by
    rw [Document.resolvedEntries_eq_map, valueEntries, List.map_map]
    rfl
  have hkeys : ((valueEntries values).map (·.1)).Nodup := by
    rw [valueEntries, List.map_map]
    exact values.nodup_keys
  rw [Document.resolved, hentries, Document.merged_of_nodup hkeys]

theorem resolved_historyItems (history : List String) :
    Document.resolved (.array (historyItems history)) = .array (historyItems history) := by
  rw [Document.resolved, Document.resolvedItems_eq_map, historyItems, List.map_map]
  rfl

/-- No key repeats in what a state writes. -/
theorem resolved_saveEntries (s : State) :
    Document.resolved (.object s.saveEntries) = .object s.saveEntries := by
  have hentries : Document.resolvedEntries s.saveEntries = s.saveEntries := by
    rw [Document.resolvedEntries_eq_map]
    simp only [saveEntries, List.map_cons, List.map_nil, resolved_valueEntries,
      resolved_historyItems]
    rfl
  have hkeys : (s.saveEntries.map (·.1)).Nodup := by
    simp [saveEntries]
  rw [Document.resolved, hentries, Document.merged_of_nodup hkeys]

/-- The text of every state is read, and as what was written. -/
theorem parse_save (s : State) : Document.parse s.save = .ok (.object s.saveEntries) := by
  have hdepth : Document.depth (.object s.saveEntries) ≤ 257 := by
    rw [depth_saveEntries]
    decide
  rw [Document.parse_of_value s.value_save hdepth, resolved_saveEntries]

/-! ## What restoring finds in it -/

theorem savedValues_valueEntries (values : Table Int32) :
    savedValues (some (.object (valueEntries values))) = values := by
  have hleaves : (valueEntries values).filter (·.2.hasLeaves) = valueEntries values := by
    apply List.filter_eq_self.mpr
    intro _ hv
    obtain ⟨e, -, rfl⟩ := List.mem_map.mp hv
    rfl
  have hread (e : String × Int32) :
      Document.intOf (some (.number (Text.Decimal.ofInt e.2))) = e.2 :=
    Text.Decimal.leadingInt_ofInt e.2
  rw [savedValues, hleaves, valueEntries, List.map_map]
  simp [Function.comp_def, hread]

theorem itemsOf_historyItems (history : List String) :
    Document.itemsOf (some (.array (historyItems history))) = historyItems history := by
  have hleaves : (historyItems history).reverse.dropWhile (!·.hasLeaves) =
      (historyItems history).reverse := by
    cases h : (historyItems history).reverse with
    | nil => rfl
    | cons item items =>
        have hitem : item ∈ historyItems history := by
          rw [← List.mem_reverse, h]
          exact List.mem_cons_self
        obtain ⟨id, -, rfl⟩ := List.mem_map.mp hitem
        rfl
  rw [Document.itemsOf, hleaves, List.reverse_reverse]

theorem savedHistory_historyItems (history : List String) :
    savedHistory (some (.array (historyItems history))) = history.filter (· ≠ "") := by
  rw [savedHistory, itemsOf_historyItems, historyItems, List.map_map]
  have hid : ((fun item ↦ Document.textOf (some item)) ∘ Document.string) = id := rfl
  rw [hid, List.map_id]

theorem restoreFrom_eq (s : State) (d : Document) :
    s.restoreFrom d =
      { current :=
          if Document.textOf (d.get? [.key "currentNode"]) = "" then s.current
          else Document.textOf (d.get? [.key "currentNode"])
        values := savedValues (d.get? [.key "variables"])
        history := lastUpTo s.limit (savedHistory (d.get? [.key "history"]))
        limit := s.limit } :=
  foldl_pushHistory_of_nil rfl _

theorem restoreFrom_saveEntries (s t : State) :
    t.restoreFrom (.object s.saveEntries) =
      { t with
        current := if s.current = "" then t.current else s.current
        values := s.values
        history := lastUpTo t.limit (s.history.filter (· ≠ "")) } := by
  have hcurrent : Document.textOf ((Document.object s.saveEntries).get? [.key "currentNode"]) =
      s.current := rfl
  have hvalues : (Document.object s.saveEntries).get? [.key "variables"] =
      some (.object (valueEntries s.values)) := rfl
  have hhistory : (Document.object s.saveEntries).get? [.key "history"] =
      some (.array (historyItems s.history)) := rfl
  rw [restoreFrom_eq, hcurrent, hvalues, hhistory, savedValues_valueEntries,
    savedHistory_historyItems]

/-- Whatever a text holds, the limit bounds what it restores, and no empty id is restored. -/
theorem Obeys.restore {limit : Option Nat} {s s' : State} {text : String} (h : Obeys limit s)
    (hrestore : s.restore text = .ok s') : Obeys limit s' := by
  rw [State.restore] at hrestore
  split at hrestore
  · next d hd =>
      cases hrestore
      have hids : ∀ id ∈ savedHistory (d.get? [.key "history"]), id ≠ "" := by
        intro id hid
        simpa using (List.mem_filter.mp hid).2
      rw [restoreFrom_eq]
      refine of_history_eq h.limit_eq ?_ hids
      rw [h.limit_eq]
  · cases hrestore

/-! ## Saving and restoring -/

theorem restore_save_eq (s t : State) :
    t.restore s.save = .ok
      { current := if s.current = "" then t.current else s.current
        values := s.values
        history := lastUpTo t.limit (s.history.filter (· ≠ ""))
        limit := t.limit } := by
  rw [restore, parse_save, ← restoreFrom_saveEntries]

/-- Restoring the text of a state succeeds, whatever state it goes into: that state takes over the
variables and the newest of the nonempty history entries, as many as its own limit allows, and the
current node unless none was saved. So a state within its limit is restored as it was. -/
theorem restore_save (s t : State) :
    t.restore s.save = .ok
      { current := if s.current = "" then t.current else s.current
        values := s.values
        history :=
          match t.limit with
          | none => s.history.filter (· ≠ "")
          | some n => ((s.history.filter (· ≠ "")).reverse.take n).reverse
        limit := t.limit } ∧
    ((∀ id ∈ s.history, id ≠ "") → (∀ n ∈ s.limit, s.history.length ≤ n) →
      (fresh s.limit).restore s.save = .ok s) := by
  constructor
  · rw [restore_save_eq]
    cases t.limit with
    | none => rfl
    | some n => rw [lastUpTo_some]
  · intro hids hlimit
    have hobeys : Obeys s.limit s := ⟨rfl, hlimit, hids⟩
    have hcurrent : (if s.current = "" then (fresh s.limit).current else s.current) =
        s.current := by
      split
      · next h => exact h.symm
      · rfl
    rw [restore_save_eq, limit_fresh, hobeys.history_eq, hcurrent]

theorem restore_save_awkward :
    (fresh (some 2)).restore (save
      { current := "say \"hi\""
        history := ["a.b", "c\\d\n"]
        values := .ofList [("", 5), ("items[0]", Int32.minValue)]
        limit := some 2 }) = .ok
      { current := "say \"hi\""
        history := ["a.b", "c\\d\n"]
        values := .ofList [("", 5), ("items[0]", Int32.minValue)]
        limit := some 2 } := by
  have h := restore_save
    { current := "say \"hi\""
      history := ["a.b", "c\\d\n"]
      values := .ofList [("", 5), ("items[0]", Int32.minValue)]
      limit := some 2 } (fresh none)
  exact h.2 (by simp) (by simp)

end Dialogue.State
