import Dialogue.Proofs.State.Restoring

/-!
# Equal states, equal texts

A text is read as the object that was written, and that object shows all of a state but its limit.
So two states have the same text only if they have the same current node, history and variables,
also where restoring would lose empty history entries. Variables come in the order of their names,
and therefore neither the order in which they were set nor the one in which a map lists them makes
a difference.
-/

namespace Dialogue.State

open Text (Quoted.write)

/-! ## What the text shows -/

theorem ofInt_injective : Function.Injective Text.Decimal.ofInt :=
  Function.LeftInverse.injective Text.Decimal.leadingInt_ofInt

theorem valueEntries_injective : Function.Injective valueEntries := by
  intro values values' h
  have hentry : Function.Injective
      fun e : String × Int32 ↦ (e.1, Document.number (Text.Decimal.ofInt e.2)) := by
    intro e e' heq
    obtain ⟨hname, hnumber⟩ := Prod.mk.inj heq
    exact Prod.ext hname (ofInt_injective (Document.number.inj hnumber))
  exact Table.ext_entries (List.map_injective_iff.mpr hentry h)

theorem historyItems_injective : Function.Injective historyItems :=
  List.map_injective_iff.mpr fun _ _ h ↦ Document.string.inj h

theorem saveEntries_eq_iff {s t : State} : s.saveEntries = t.saveEntries ↔
    s.current = t.current ∧ s.history = t.history ∧ s.values = t.values := by
  simp only [saveEntries, List.cons.injEq, Prod.mk.injEq, Document.string.injEq,
    Document.object.injEq, Document.array.injEq, historyItems_injective.eq_iff,
    valueEntries_injective.eq_iff, true_and, and_true]
  exact and_congr_right fun _ ↦ and_comm

theorem save_eq_iff {s t : State} : s.save = t.save ↔
    s.current = t.current ∧ s.history = t.history ∧ s.values = t.values := by
  rw [← saveEntries_eq_iff]
  constructor
  · intro h
    have hread : Document.parse s.save = .ok (.object t.saveEntries) := by
      rw [h, parse_save]
    rw [parse_save] at hread
    exact Document.object.inj (Except.ok.inj hread)
  · intro h
    obtain ⟨hcurrent, hhistory, hvalues⟩ := saveEntries_eq_iff.mp h
    unfold save
    rw [hcurrent, hhistory, hvalues]

/-! ## The order of variables -/

/-- Sets variables one after another. -/
def assign (s : State) (assignments : List (String × Int32)) : State :=
  assignments.foldl (fun s a ↦ s.setVariable a.1 a.2) s

theorem assign_concat (s : State) (assignments : List (String × Int32)) (a : String × Int32) :
    s.assign (assignments ++ [a]) = (s.assign assignments).setVariable a.1 a.2 := by
  rw [assign, List.foldl_append]
  rfl

theorem assign_eq (s : State) (assignments : List (String × Int32)) :
    s.assign assignments = { s with values := (s.assign assignments).values } := by
  induction assignments using List.reverseRecOn with
  | nil => rfl
  | append_singleton assignments a ih =>
      rw [assign_concat, setVariable, ih]

/-- Of the values that a name is given the last one stays. -/
theorem get?_values_assign (s : State) (assignments : List (String × Int32)) (name : String) :
    (s.assign assignments).values.get? name =
      (assignments.reverse.lookup name).or (s.values.get? name) := by
  induction assignments using List.reverseRecOn with
  | nil => rfl
  | append_singleton assignments a ih =>
      obtain ⟨name', value⟩ := a
      rw [assign_concat, setVariable, Table.get?_insert, ih, List.reverse_append,
        List.reverse_singleton, List.singleton_append, List.lookup_cons]
      by_cases h : name' = name
      · simp [h]
      · simp [h, beq_false_of_ne (Ne.symm h)]

/-- The text of a state whose variables are given by a list of their names in any order. -/
def saveListed (s : State) (names : List String) : String :=
  "\x7b\"currentNode\":" ++ Quoted.write s.current ++
    ",\"variables\":\x7b" ++
    ",".intercalate ((names.mergeSort (· ≤ ·)).map fun name ↦ saveVariable (name, s.valueOf name)) ++
    "\x7d,\"history\":[" ++ ",".intercalate (s.history.map Quoted.write) ++ "]\x7d"

theorem pairwise_mergeSort_le (names : List String) :
    (names.mergeSort (· ≤ ·)).Pairwise (· ≤ ·) := by
  have h : (names.mergeSort (· ≤ ·)).Pairwise fun a b ↦ decide (a ≤ b) = true := by
    apply List.pairwise_mergeSort
    · intro a b c hab hbc
      rw [decide_eq_true_eq] at hab hbc ⊢
      exact String.le_trans hab hbc
    · intro a b
      simpa using String.le_total a b
  exact h.imp of_decide_eq_true

/-- Sorting the names gives the order of the table. -/
theorem mergeSort_names {values : Table Int32} {names : List String} (hnodup : names.Nodup)
    (hnames : ∀ name, name ∈ names ↔ values.contains name) :
    names.mergeSort (· ≤ ·) = values.entries.map (·.1) := by
  have hperm : (names.mergeSort (· ≤ ·)).Perm (values.entries.map (·.1)) := by
    refine (List.mergeSort_perm names _).trans ?_
    refine (List.perm_ext_iff_of_nodup hnodup values.nodup_keys).mpr fun name ↦ ?_
    rw [hnames, Table.contains_iff]
  have hkeys : (values.entries.map (·.1)).Pairwise (· ≤ ·) :=
    List.pairwise_map.mpr (values.sorted.imp fun hab ↦ Std.le_of_lt hab)
  refine hperm.eq_of_pairwise ?_ (pairwise_mergeSort_le names) hkeys
  intro a b _ _ hab hba
  exact String.le_antisymm hab hba

theorem saveListed_eq {s : State} {names : List String} (hnodup : names.Nodup)
    (hnames : ∀ name, name ∈ names ↔ s.hasVariable name) : s.saveListed names = s.save := by
  have hvariables : (s.values.entries.map (·.1)).map
      (fun name ↦ saveVariable (name, s.valueOf name)) = s.values.entries.map saveVariable := by
    rw [List.map_map]
    apply List.map_congr_left
    intro e he
    have hvalue : s.valueOf e.1 = e.2 := by
      rw [valueOf, Table.get?_eq_some_iff.mpr he, Option.getD_some]
    rw [Function.comp_apply, hvalue]
  unfold saveListed save
  rw [mergeSort_names hnodup hnames, hvariables]

/-! ## The whole text -/

/-- Two states have the same text exactly if they have the same current node, the same history and
the same variables; their limits do not matter. It does not matter either how variables came to
have their values, nor in which order they are listed. -/
theorem save_canonical (s t : State) :
    (s.save = t.save ↔ s.current = t.current ∧ s.history = t.history ∧
      ∀ name, s.values.get? name = t.values.get? name) ∧
    (∀ limit, save { s with limit := limit } = s.save) ∧
    (∀ us vs : List (String × Int32),
      (∀ name, us.reverse.lookup name = vs.reverse.lookup name) →
      (s.assign us).save = (s.assign vs).save) ∧
    ∀ names : List String, names.Nodup → (∀ name, name ∈ names ↔ s.hasVariable name) →
      s.saveListed names = s.save := by
  refine ⟨?_, fun _ ↦ rfl, fun us vs h ↦ ?_, fun names ↦ saveListed_eq⟩
  · rw [save_eq_iff]
    refine and_congr_right fun _ ↦ and_congr_right fun _ ↦ ?_
    exact ⟨fun h name ↦ by rw [h], Table.ext_get?⟩
  · have hvalues : (s.assign us).values = (s.assign vs).values := by
      apply Table.ext_get?
      intro name
      rw [get?_values_assign, get?_values_assign, h]
    rw [assign_eq s us, assign_eq s vs, hvalues]

/-- An overwritten value, and names with the marks of the text itself. -/
theorem save_canonical_reordered :
    let s : State := { fresh (some 3) with history := ["", "a\",\"b"] }
    let us := [("\x7d", 1), ("\"", 2), ("\x7d", Int32.minValue)]
    let vs := [("\"", 2), ("\x7d", Int32.minValue)]
    (s.assign us).save = (s.assign vs).save ∧
      (s.assign us).saveListed ["\x7d", "\""] = (s.assign us).save ∧
      (s.assign us).save ≠ { s.assign us with history := ["a\",\"b"] }.save := by
  intro s us vs
  have hassign : ∀ name, us.reverse.lookup name = vs.reverse.lookup name := by
    intro name
    simp only [us, vs, List.reverse_cons, List.reverse_nil, List.nil_append, List.cons_append,
      List.lookup_cons]
    cases name == "\x7d" <;> rfl
  have hlisted : ∀ name, name ∈ ["\x7d", "\""] ↔ (s.assign us).hasVariable name := by
    intro name
    have hentries : (s.assign us).values.entries.map (·.1) = ["\"", "\x7d"] := by decide
    rw [hasVariable, Table.contains_iff, hentries, List.mem_pair, List.mem_pair]
    exact or_comm
  obtain ⟨-, -, hsame, -⟩ := save_canonical s s
  obtain ⟨-, -, -, hnames⟩ := save_canonical (s.assign us) s
  obtain ⟨hiff, -⟩ := save_canonical (s.assign us) { s.assign us with history := ["a\",\"b"] }
  refine ⟨hsame us vs hassign, hnames _ (by decide) hlisted, fun h ↦ ?_⟩
  exact absurd (hiff.mp h).2.1 (by decide)

end Dialogue.State
