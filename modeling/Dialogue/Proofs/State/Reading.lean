import Dialogue.Proofs.Script.Reading
import Dialogue.Proofs.State.Restoring

/-!
# What a save text restores

A save text may be any document, so what it restores is told by the tree alone: the variables by the
entries of one object, the history by the items of one array, and the current node by one text.
Containers and empty texts are passed over wherever they stand, and that arrays are only read up to
their last leaf makes no difference.
-/

namespace Dialogue

namespace Document

variable {d : Document} {name : String}

/-- The entries of an entry, if it is an object. -/
def entryEntries (d : Document) (name : String) : List (String × Document) :=
  match d.entry? name with
  | some (.object entries) => entries
  | _ => []

theorem part_of_entry {x : Document} (h : d.entry? name = some x) : Part x d := by
  rw [← step?_key] at h
  exact part_of_step? h

theorem Distinct.nodup_entryEntries (h : Distinct d) (name : String) :
    ((d.entryEntries name).map (·.1)).Nodup := by
  rw [entryEntries]
  split
  · next entries hentries => exact h entries (part_of_entry hentries)
  · exact List.nodup_nil

/-- The texts of the items that have one which is not empty. -/
def itemTexts (items : List Document) : List String :=
  (items.filterMap scalarText?).filter (· ≠ "")

theorem itemTexts_append (items items' : List Document) :
    itemTexts (items ++ items') = itemTexts items ++ itemTexts items' := by
  rw [itemTexts, List.filterMap_append, List.filter_append, itemTexts, itemTexts]

theorem itemTexts_eq_filter_map (items : List Document) :
    itemTexts items = (items.map fun item ↦ textOf (some item)).filter (· ≠ "") := by
  induction items with
  | nil => rfl
  | cons item items ih =>
      rw [← List.singleton_append, itemTexts_append, ih, List.map_append, List.filter_append]
      congr 1
      cases htext : item.scalarText? <;> simp [itemTexts, textOf, htext]

/-- What stands after the last scalar has no texts. -/
theorem UpToScalar.itemTexts_eq {items kept : List Document} (h : UpToScalar items kept) :
    itemTexts kept = itemTexts items := by
  obtain ⟨rest, rfl, hrest⟩ := h.exists_rest
  have hnone : rest.filterMap scalarText? = [] := by
    apply List.filterMap_eq_nil_iff.mpr
    intro item hitem
    by_contra hscalar
    exact hrest item hitem ⟨item, .self, Option.isSome_iff_ne_none.mpr hscalar⟩
  rw [itemTexts_append, itemTexts, itemTexts, hnone, List.filter_nil, List.append_nil]

/-- Items are found alike by their paths and in their array. -/
theorem map_get?_of_forall₂ {items : List Document} {paths : List Path}
    (h : List.Forall₂ (fun item p ↦ d.get? p = some item) items paths) {α : Type}
    (f : Option Document → α) :
    (paths.map fun p ↦ f (d.get? p)) = items.map fun item ↦ f (some item) := by
  induction h with
  | nil => rfl
  | cons hitem _ ih => rw [List.map_cons, List.map_cons, hitem, ih]

end Document

namespace State

open Document (itemTexts)
open Text.Decimal (leadingInt)

variable {d : Document}

/-! ## Variables -/

theorem savedValues_entry (d : Document) (name : String) :
    savedValues (d.entry? name) = .ofList (((d.entryEntries name).filter (·.2.hasLeaves)).map
      fun e ↦ (e.1, Document.intOf (some e.2))) := by
  rw [Document.entryEntries]
  cases d.entry? name with
  | none => rfl
  | some x => cases x <;> rfl

/-- The integer of a scalar, and 0 for a container. -/
theorem intOf_some (x : Document) :
    Document.intOf (some x) = (x.scalarText?.map leadingInt).getD 0 := by
  rw [Document.intOf, Document.textOf, Option.bind_some]
  cases x.scalarText? <;> rfl

/-- Every entry with a scalar in it is one variable, since no key occurs twice. -/
theorem get?_savedValues_entry (h : d.Distinct) (name : String) {key : String} {value : Int32} :
    (savedValues (d.entry? name)).get? key = some value ↔
      ∃ x, (key, x) ∈ d.entryEntries name ∧ x.HoldsScalar ∧
        value = (x.scalarText?.map leadingInt).getD 0 := by
  have hmem {v : Int32} : (key, v) ∈ ((d.entryEntries name).filter (·.2.hasLeaves)).map
      (fun e ↦ (e.1, Document.intOf (some e.2))) ↔
        ∃ x, (key, x) ∈ d.entryEntries name ∧ x.HoldsScalar ∧
          v = (x.scalarText?.map leadingInt).getD 0 := by
    simp only [List.mem_map, List.mem_filter, Document.hasLeaves_iff, intOf_some]
    constructor
    · rintro ⟨⟨k, x⟩, ⟨hx, hscalar⟩, heq⟩
      cases heq
      exact ⟨x, hx, hscalar, rfl⟩
    · rintro ⟨x, hx, hscalar, rfl⟩
      exact ⟨(key, x), ⟨hx, hscalar⟩, rfl⟩
  rw [savedValues_entry, Table.get?_ofList_eq_some_iff, hmem]
  intro v v' hv hv'
  obtain ⟨x, hx, -, rfl⟩ := hmem.mp hv
  obtain ⟨x', hx', -, rfl⟩ := hmem.mp hv'
  have heq : (key, x) = (key, x') :=
    List.inj_on_of_nodup_map (h.nodup_entryEntries name) hx hx' rfl
  cases heq
  rfl

/-! ## History -/

theorem savedHistory_entry (d : Document) (name : String) :
    savedHistory (d.entry? name) = itemTexts (d.entryItems name) := by
  rw [savedHistory, ← Document.itemTexts_eq_filter_map,
    (Document.upToScalar_entryItems d name).itemTexts_eq]

/-! ## The whole state -/

/-- The state that is restored by looking up every part under the text of its path. -/
def restoredUnder (s : State) (d : Document) : State where
  current :=
    let current := Document.textOf (d.at? "currentNode")
    if current = "" then s.current else current
  values := savedValues (d.at? "variables")
  history := lastUpTo s.limit <|
    ((List.range (Document.sizeOf (d.at? "history"))).map fun i ↦
      Document.textOf (d.at? ("history" ++ "[" ++ i.repr ++ "]"))).filter (· ≠ "")
  limit := s.limit

open Dialogue.Path (Names names_key)

theorem restoredUnder_eq (h : d.Indexed) (s : State) : s.restoredUnder d = s.restoreFrom d := by
  have hcurrent : d.at? "currentNode" = d.get? [.key "currentNode"] :=
    Document.at?_of_names (names_key (by decide) (by decide))
  have hvalues : d.at? "variables" = d.get? [.key "variables"] :=
    Document.at?_of_names (names_key (by decide) (by decide))
  have hnames : Names "history" [.key "history"] := names_key (by decide) (by decide)
  have hhistory : ((List.range (Document.sizeOf (d.at? "history"))).map fun i ↦
      Document.textOf (d.at? ("history" ++ "[" ++ i.repr ++ "]"))) =
        (Document.itemsOf (d.get? [.key "history"])).map fun item ↦
          Document.textOf (some item) := by
    rw [← Document.map_get?_of_forall₂ (d.forall₂_itemPathsAt _)]
    exact h.map_items (f := fun key ↦ Document.textOf (d.at? key))
      (g := fun path ↦ Document.textOf (d.get? path)) hnames
      fun _ _ hitem ↦ congrArg Document.textOf (Document.at?_of_names hitem)
  rw [restoredUnder, restoreFrom_eq, hcurrent, hvalues, hhistory, savedHistory]

/-- Restoring any document succeeds and gives what its tree shows. The current node is the text of
one entry unless that is empty; the variables are the entries of an object that hold a scalar, each
under its own key and with the integer that its text starts with, or 0 for a container; and the
history is all the texts of an array, cut to the newest ones that the limit allows. Nothing else of
the old state remains but its limit. Looking each part up under the text of its path, such as
`history[2]`, gives the same. -/
theorem restore_reads {text : String} (h : Document.parse text = .ok d) (s : State) :
    ∃ values,
      s.restore text = .ok
        { current :=
            if d.entryText "currentNode" = "" then s.current else d.entryText "currentNode"
          values := values
          history :=
            match s.limit with
            | none => itemTexts (d.entryItems "history")
            | some n => (itemTexts (d.entryItems "history")).rtake n
          limit := s.limit } ∧
      (∀ name value, values.get? name = some value ↔
        ∃ x, (name, x) ∈ d.entryEntries "variables" ∧ x.HoldsScalar ∧
          value = (x.scalarText?.map leadingInt).getD 0) ∧
      (d.Indexed → s.restore text = .ok (s.restoredUnder d)) := by
  obtain ⟨_, -, hdistinct⟩ := Document.exists_object_of_parse h
  have hentry (name : String) : d.get? [.key name] = d.entry? name :=
    Document.get?_key (Document.get?_nil d) name
  have hrestore : s.restore text = .ok (s.restoreFrom d) := by rw [restore, h]
  refine ⟨savedValues (d.entry? "variables"), ?_,
    fun name value ↦ get?_savedValues_entry hdistinct "variables", ?_⟩
  · rw [hrestore, restoreFrom_eq, hentry, hentry, hentry, savedHistory_entry]
    cases s.limit <;> rfl
  · intro hindexed
    rw [hrestore, restoredUnder_eq hindexed]

/-- Texts among other items, a container as a variable, and no current node. -/
theorem restore_reads_wrong_shapes :
    let old : State :=
      { current := "old", history := ["h"], values := .ofList [("v", 1)], limit := some 1 }
    ∃ values,
      old.restore
        "\x7b\"history\":[\"a\",[\"c\"],\"b\"],\"variables\":\x7b\".\":\"1a\",\"\":[null]\x7d\x7d"
          = .ok { current := "old", history := ["b"], values := values, limit := some 1 } ∧
      values.get? "." = some 1 ∧ values.get? "" = some 0 ∧ values.get? "v" = none := by
  intro old
  let assigned : List (String × Document) := [(".", .string "1a"), ("", .array [.null])]
  let d : Document := .object [("history", .array [.string "a", .array [.string "c"],
    .string "b"]), ("variables", .object assigned)]
  have hparse : Document.parse
      "\x7b\"history\":[\"a\",[\"c\"],\"b\"],\"variables\":\x7b\".\":\"1a\",\"\":[null]\x7d\x7d"
        = .ok d := by
    cbv
  have hentries : d.entryEntries "variables" = assigned := rfl
  obtain ⟨values, hrestore, hvalues, -⟩ := restore_reads hparse old
  rw [hentries] at hvalues
  refine ⟨values, hrestore, (hvalues _ _).mpr ⟨.string "1a", ?_⟩,
    (hvalues _ _).mpr ⟨.array [.null], ?_⟩, ?_⟩
  · exact ⟨List.mem_cons_self, ⟨_, .self, rfl⟩, by decide⟩
  · exact ⟨by simp [assigned], Document.hasLeaves_iff.mp rfl, rfl⟩
  · apply Option.eq_none_iff_forall_ne_some.mpr
    intro value hvalue
    obtain ⟨x, hx, -⟩ := (hvalues _ _).mp hvalue
    simp [assigned] at hx

end State

end Dialogue
