import Dialogue.Proofs.Document.Flat
import Dialogue.Proofs.Script.Nodes
import Dialogue.Script.Reading
import Mathlib.Data.List.Permutation

/-!
# What a script reads

A script is read through paths, and each field of a node through a path of its own. What is found
there is what the tree of the document shows directly: the items of an array are told by their
entries, up to the last item that holds a scalar. The paths may as well be written out and read
back, as long as every index of an array can be written.
-/

namespace Dialogue

/-! ## Entries -/

namespace Document

/-- The value of an entry of an object. Nothing else has entries. -/
def entry? (d : Document) (name : String) : Option Document :=
  match d with
  | .object entries => entries.lookup name
  | _ => none

/-- The text of an entry, which is empty where there is no scalar. -/
def entryText (d : Document) (name : String) : String :=
  ((d.entry? name).bind scalarText?).getD ""

/-- The items of an entry, if it is an array. -/
def entryItems (d : Document) (name : String) : List Document :=
  match d.entry? name with
  | some (.array items) => items
  | _ => []

theorem step?_key (d : Document) (name : String) : d.step? (.key name) = d.entry? name := by
  cases d with
  | object entries =>
      rw [step?, entry?]
      induction entries with
      | nil => rfl
      | cons e entries ih =>
          rw [List.find?_cons, List.lookup_cons]
          by_cases h : e.1 = name
          · simp [h]
          · rw [decide_eq_false h, beq_false_of_ne (Ne.symm h)]
            exact ih
  | _ => rfl

theorem upToScalar_entryItems (d : Document) (name : String) :
    UpToScalar (d.entryItems name) (itemsOf (d.entry? name)) := by
  rw [entryItems]
  split
  · next items h =>
      rw [h]
      exact upToScalar_itemsOf items
  · next h =>
      rw [itemsOf_eq_nil h]
      exact ⟨⟨[], rfl, fun _ h ↦ nomatch h⟩, fun _ h ↦ nomatch h⟩

end Document

open Document (UpToScalar)

/-! ## Items and nodes -/

structure Choice.Reads (item : Document) (choice : Choice) : Prop where
  text : choice.text = item.entryText "text"
  next : choice.next = item.entryText "next"

/-- The node has the texts of the item's entries, and the choices of its array. -/
structure Node.Reads (item : Document) (n : Node) : Prop where
  id : n.id = item.entryText "id"
  kind : n.kind = .ofName (item.entryText "type")
  speaker : n.speaker = item.entryText "speaker"
  text : n.text = item.entryText "text"
  next : n.next = item.entryText "next"
  choices : ∃ kept, UpToScalar (item.entryItems "choices") kept ∧
    List.Forall₂ Choice.Reads kept n.choices
  background : n.background = item.entryText "background"
  character : n.character = item.entryText "character"
  expression : n.expression = item.entryText "expression"
  music : n.music = item.entryText "bgm"
  sound : n.sound = item.entryText "se"

namespace Document

variable {d item : Document} {path : Path}

theorem get?_key (h : d.get? path = some item) (name : String) :
    d.get? (path ++ [.key name]) = item.entry? name := by
  rw [get?_concat, h, Option.bind_some, step?_key]

theorem fieldAt_eq (h : d.get? path = some item) (name : String) :
    d.fieldAt path name = item.entryText name := by
  rw [fieldAt, get?_key h]
  rfl

theorem get?_index {i : Nat} (h : (itemsOf (d.get? path))[i]? = some item) :
    d.get? (path ++ [.index i]) = some item := by
  obtain ⟨items, hitems, hi⟩ := exists_array_of_itemsOf h
  rw [get?_concat, hitems]
  exact hi

theorem forall₂_itemPathsAt (d : Document) (path : Path) :
    List.Forall₂ (fun item p ↦ d.get? p = some item) (itemsOf (d.get? path))
      (d.itemPathsAt path) := by
  refine List.forall₂_iff_get.mpr ⟨by simp [itemPathsAt, sizeOf], fun i hi hi' ↦ ?_⟩
  have hpath : (d.itemPathsAt path).get ⟨i, hi'⟩ = path ++ [.index i] := by
    simp [itemPathsAt]
  rw [hpath]
  exact get?_index (List.getElem?_eq_getElem hi)

theorem reads_choiceAt (h : d.get? path = some item) : Choice.Reads item (d.choiceAt path) where
  text := fieldAt_eq h "text"
  next := fieldAt_eq h "next"

theorem reads_nodeAt (h : d.get? path = some item) : Node.Reads item (d.nodeAt path) where
  id := fieldAt_eq h "id"
  kind := congrArg NodeKind.ofName (fieldAt_eq h "type")
  speaker := fieldAt_eq h "speaker"
  text := fieldAt_eq h "text"
  next := fieldAt_eq h "next"
  choices := by
    refine ⟨_, upToScalar_entryItems item "choices", ?_⟩
    rw [← get?_key h]
    exact List.forall₂_map_right_iff.mpr
      ((forall₂_itemPathsAt d _).imp fun _ _ hitem ↦ reads_choiceAt hitem)
  background := fieldAt_eq h "background"
  character := fieldAt_eq h "character"
  expression := fieldAt_eq h "expression"
  music := fieldAt_eq h "bgm"
  sound := fieldAt_eq h "se"

/-! ## Reading by the texts of paths

The text of the path to a field is made by appending to that of the path to its item. -/

/-- The text of the field `name` below a path that is given as text. -/
def textUnder (d : Document) (key name : String) : String :=
  textOf (d.at? (key ++ "." ++ name))

def choiceUnder (d : Document) (key : String) : Choice where
  text := d.textUnder key "text"
  next := d.textUnder key "next"

def nodeUnder (d : Document) (key : String) : Node where
  id := d.textUnder key "id"
  kind := .ofName (d.textUnder key "type")
  speaker := d.textUnder key "speaker"
  text := d.textUnder key "text"
  next := d.textUnder key "next"
  choices := (List.range (sizeOf (d.at? (key ++ "." ++ "choices")))).map fun j ↦
    d.choiceUnder (key ++ "." ++ "choices" ++ "[" ++ j.repr ++ "]")
  background := d.textUnder key "background"
  character := d.textUnder key "character"
  expression := d.textUnder key "expression"
  music := d.textUnder key "bgm"
  sound := d.textUnder key "se"

open Dialogue.Path (Names)

variable {key name : String}

theorem at?_of_names (h : Names key path) : d.at? key = d.get? path := by
  rw [at?, h.ofText?, Option.bind_some]

theorem textUnder_eq_fieldAt (h : Names key path) (hname : (Segment.key name).Writable) :
    d.textUnder key name = d.fieldAt path name := by
  rw [textUnder, at?_of_names (h.field hname), fieldAt]

theorem Indexed.writable_of_lt_sizeOf (h : Indexed d) {i : Nat}
    (hi : i < sizeOf (d.get? path)) : (Segment.index i).Writable := by
  obtain ⟨items, hitems, hitem⟩ := exists_array_of_itemsOf (List.getElem?_eq_getElem hi)
  obtain ⟨hlt, -⟩ := List.getElem?_eq_some_iff.mp hitem
  exact Nat.lt_trans hlt (h items (part_of_get? hitems))

/-- Items are read alike under the texts of their paths and at these. -/
theorem Indexed.map_items (h : Indexed d) (hkey : Names key path) {α : Type} {f : String → α}
    {g : Path → α} (hfg : ∀ key path, Names key path → f key = g path) :
    ((List.range (sizeOf (d.at? key))).map fun i ↦ f (key ++ "[" ++ i.repr ++ "]")) =
      (d.itemPathsAt path).map g := by
  rw [itemPathsAt, List.map_map, at?_of_names hkey]
  apply List.map_congr_left
  intro i hi
  exact hfg _ _ (hkey.item (h.writable_of_lt_sizeOf (List.mem_range.mp hi)))

theorem choiceUnder_eq_choiceAt (h : Names key path) : d.choiceUnder key = d.choiceAt path := by
  simp (disch := decide) only [choiceUnder, choiceAt, textUnder_eq_fieldAt h]

theorem Indexed.nodeUnder_eq_nodeAt (hd : Indexed d) (h : Names key path) :
    d.nodeUnder key = d.nodeAt path := by
  have hkey : Names (key ++ "." ++ "choices") (path ++ [.key "choices"]) :=
    h.field (by decide)
  have hchoices := hd.map_items (f := d.choiceUnder) (g := d.choiceAt) hkey
    fun _ _ hchoice ↦ choiceUnder_eq_choiceAt hchoice
  rw [nodeUnder, nodeAt, hchoices]
  simp (disch := decide) only [textUnder_eq_fieldAt h]

end Document

namespace Script

theorem ofDocument_reads (d : Document) : ∃ kept nodes,
    UpToScalar (d.entryItems "nodes") kept ∧ List.Forall₂ Node.Reads kept nodes ∧
    ofDocument d = ofNodes nodes ∧
    (d.Indexed → nodes = (List.range (Document.sizeOf (d.at? "nodes"))).map fun i ↦
      d.nodeUnder ("nodes" ++ "[" ++ i.repr ++ "]")) := by
  refine ⟨_, _, Document.upToScalar_entryItems d "nodes", ?_, rfl, ?_⟩
  · have hentry : d.get? [.key "nodes"] = d.entry? "nodes" :=
      Document.get?_key (Document.get?_nil d) "nodes"
    rw [← hentry]
    exact List.forall₂_map_right_iff.mpr
      ((Document.forall₂_itemPathsAt d _).imp fun _ _ hitem ↦ Document.reads_nodeAt hitem)
  · intro hd
    exact (hd.map_items (Path.names_key (by decide) (by decide))
      fun _ _ hnode ↦ hd.nodeUnder_eq_nodeAt hnode).symm

theorem map_id_of_reads {items : List Document} {ns : List Node}
    (h : List.Forall₂ Node.Reads items ns) :
    ns.map Node.id = items.map fun item ↦ item.entryText "id" := by
  induction h with
  | nil => rfl
  | cons hreads _ ih => rw [List.map_cons, List.map_cons, hreads.id, ih]

/-- A text is a script exactly if it is a document, and the script is what the tree of the document
shows. There is one node for each item of `nodes` up to the last one that holds a scalar, with the
texts of that item's entries; nodes are inserted in order, so each id stands where it first
appears, with the last node that has it, and the first node is the entry unless its id is empty.
Reading each field under the text of its path, such as `nodes[0].choices[1].text`, gives the
same. -/
theorem parse_reads (text : String) :
    (∀ error, parse text = .error error ↔
      ∃ e, Document.parse text = .error e ∧ error = .malformed e) ∧
    ∀ d, Document.parse text = .ok d → ∃ script kept nodes,
      parse text = .ok script ∧
      UpToScalar (d.entryItems "nodes") kept ∧ List.Forall₂ Node.Reads kept nodes ∧
      script.nodes = (nodes.foldl insert empty).nodes ∧
      script.nodes.map Node.id = (nodes.map Node.id).eraseDups ∧
      (∀ n ∈ script.nodes, nodes.reverse.find? (·.id = n.id) = some n) ∧
      script.entry = entryOf nodes ∧
      (d.Indexed → nodes = (List.range (Document.sizeOf (d.at? "nodes"))).map fun i ↦
        d.nodeUnder ("nodes" ++ "[" ++ i.repr ++ "]")) := by
  constructor
  · intro error
    rw [parse]
    cases Document.parse text <;> simp [eq_comm]
  · intro d hd
    obtain ⟨kept, nodes, hkept, hreads, hscript, htexts⟩ := ofDocument_reads d
    refine ⟨ofNodes nodes, kept, nodes, ?_, hkept, hreads, nodes_ofNodes nodes,
      map_id_ofNodes nodes, fun n hn ↦ find?_reverse_of_mem_ofNodes hn, entry_ofNodes nodes,
      htexts⟩
    rw [parse, hd, ← hscript]

/-- Items of one id, and items that are no objects or hold nothing. -/
theorem parse_reads_wrong_shapes :
    ∃ script, parse
        "\x7b\"nodes\":[\x7b\"id\":\"a\"\x7d,[],\x7b\"id\":\"a\",\"next\":\"b\"\x7d,\x7b\x7d]\x7d" =
          .ok script ∧
      script.nodes = [{ id := "a", next := "b" }, {}] ∧ script.entry = some "a" := by
  let d : Document := .object [("nodes", .array [.object [("id", .string "a")], .array [],
    .object [("id", .string "a"), ("next", .string "b")], .object []])]
  have hparse : Document.parse
      "\x7b\"nodes\":[\x7b\"id\":\"a\"\x7d,[],\x7b\"id\":\"a\",\"next\":\"b\"\x7d,\x7b\x7d]\x7d" =
        .ok d := by
    cbv
  have hindexed : d.Indexed := by
    have hstring {x : Document} {t : String} : Document.Part x (.string t) ↔ x = .string t :=
      Document.part_iff_of_scalar rfl
    simp [d, Document.Indexed, hstring, Text.Decimal.bound64]
  obtain ⟨script, kept, nodes, hscript, -, -, hnodes, -, -, hentry, htexts⟩ :=
    (parse_reads _).2 d hparse
  have hlist : nodes = [{ id := "a" }, {}, { id := "a", next := "b" }] := by
    rw [htexts hindexed]
    decide +kernel
  subst hlist
  exact ⟨script, hscript, hnodes, hentry⟩

end Script

end Dialogue
