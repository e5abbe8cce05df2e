import Dialogue.Proofs.Document.Part
import Dialogue.Proofs.Document.Writing

/-!
# Which documents are read

What is read is an object, no object in it has a key twice, containers nest at most 257 deep, and
every number is a numeral. Nothing else is required of a document: each that has these four
properties is read from a text, its own text without blanks. So keys and strings are any texts.
-/

namespace Dialogue.Document

open Text (Enclosed Quoted.write)
open Grammar (Entry Layer Number Scalar Value Within)

/-! ## What reading establishes -/

/-- Every number in the document is written as a numeral. -/
def Numeric (d : Document) : Prop := ∀ text, Part (.number text) d → Number text.toList

theorem numeric_object {entries : List (String × Document)} (h : ∀ e ∈ entries, Numeric e.2) :
    Numeric (.object entries) := by
  intro text htext
  rcases part_object_iff.mp htext with heq | ⟨e, he, htext⟩
  · cases heq
  · exact h e he text htext

theorem numeric_array {items : List Document} (h : ∀ item ∈ items, Numeric item) :
    Numeric (.array items) := by
  intro text htext
  rcases part_array_iff.mp htext with heq | ⟨item, hitem, htext⟩
  · cases heq
  · exact h item hitem text htext

theorem Numeric.of_part {x d : Document} (h : Numeric d) (hx : Part x d) : Numeric x :=
  fun text htext ↦ h text (htext.trans hx)

theorem numeric_of_scalar {s : List Char} {d : Document} (h : Scalar s d) : Numeric d := by
  intro text htext
  cases h with
  | number hs =>
      cases htext
      rwa [String.toList_ofList]
  | _ => cases htext

/-- The value of an entry is written at its end. -/
theorem entry_exists_suffix {P : List Char → Document → Prop} {s : List Char}
    {e : String × Document} (h : Entry P s e) : ∃ v, P v e.2 ∧ v <:+ s := by
  cases h with
  | @mk s _ w w' v _ _ _ _ hv => exact ⟨v, hv, '"' :: (s ++ '"' :: (w ++ ':' :: w')), by simp⟩

theorem within_object {n : Nat} {s : List Char} {entries : List (String × Document)}
    (h : Within n s (.object entries)) :
    ∃ m, n = m + 1 ∧ ∀ e ∈ entries, ∃ v, Within m v e.2 ∧ v <:+: s := by
  cases Grammar.within_iff.mp h with
  | scalar hs => cases hs
  | object hs =>
      refine ⟨_, rfl, fun e he ↦ ?_⟩
      obtain ⟨_, hentry, hinfix⟩ := hs.exists_of_mem (mem_of_mem_merged he)
      obtain ⟨v, hv, hvs⟩ := entry_exists_suffix hentry
      exact ⟨v, hv, (hvs.isInfix.trans hinfix).trans (List.suffix_cons _ _).isInfix⟩

theorem within_array {n : Nat} {s : List Char} {items : List Document}
    (h : Within n s (.array items)) :
    ∃ m, n = m + 1 ∧ items.length < s.length ∧
      ∀ item ∈ items, ∃ v, Within m v item ∧ v <:+: s := by
  cases Grammar.within_iff.mp h with
  | scalar hs => cases hs
  | array hs =>
      refine ⟨_, rfl, Nat.lt_succ_of_le hs.length_le, fun item hitem ↦ ?_⟩
      obtain ⟨v, hv, hinfix⟩ := hs.exists_of_mem hitem
      exact ⟨v, hv, hinfix.trans (List.suffix_cons _ _).isInfix⟩

/-- Merging repeated keys makes nothing deeper. -/
theorem depth_le_of_within {n : Nat} {s : List Char} {d : Document} (h : Within n s d) :
    d.depth ≤ n := by
  induction d generalizing n s with
  | object entries ih =>
      obtain ⟨m, rfl, hentries⟩ := within_object h
      rw [depth, Nat.add_le_add_iff_right, entriesDepth_le_iff]
      intro e he
      obtain ⟨v, hv, -⟩ := hentries e he
      exact ih e he hv
  | array items ih =>
      obtain ⟨m, rfl, -, hitems⟩ := within_array h
      rw [depth, Nat.add_le_add_iff_right, itemsDepth_le_iff]
      intro item hitem
      obtain ⟨v, hv, -⟩ := hitems item hitem
      exact ih item hitem hv
  | _ => exact Nat.zero_le n

theorem numeric_of_within {n : Nat} {s : List Char} {d : Document} (h : Within n s d) :
    Numeric d := by
  induction d generalizing n s with
  | object entries ih =>
      obtain ⟨m, -, hentries⟩ := within_object h
      apply numeric_object
      intro e he
      obtain ⟨v, hv, -⟩ := hentries e he
      exact ih e he hv
  | array items ih =>
      obtain ⟨m, -, -, hitems⟩ := within_array h
      apply numeric_array
      intro item hitem
      obtain ⟨v, hv, -⟩ := hitems item hitem
      exact ih item hitem hv
  | _ =>
      cases Grammar.within_iff.mp h with
      | scalar hs => exact numeric_of_scalar hs

/-- Every part of what is read is written somewhere in the text. -/
theorem exists_within_of_part {n : Nat} {s : List Char} {x d : Document} (hx : Part x d)
    (h : Within n s d) : ∃ m v, Within m v x ∧ v <:+: s := by
  induction hx generalizing n s with
  | self => exact ⟨n, s, h, List.infix_rfl⟩
  | entry he _ ih =>
      obtain ⟨m, -, hentries⟩ := within_object h
      obtain ⟨v, hv, hvs⟩ := hentries _ he
      obtain ⟨k, u, hu, huv⟩ := ih hv
      exact ⟨k, u, hu, huv.trans hvs⟩
  | item hitem _ ih =>
      obtain ⟨m, -, -, hitems⟩ := within_array h
      obtain ⟨v, hv, hvs⟩ := hitems _ hitem
      obtain ⟨k, u, hu, huv⟩ := ih hv
      exact ⟨k, u, hu, huv.trans hvs⟩

/-- What a document is that some text denotes. -/
structure Readable (d : Document) : Prop where
  exists_entries : ∃ entries, d = .object entries
  distinct : Distinct d
  depth_le : d.depth ≤ 257
  numeric : Numeric d

theorem readable_of_parse {text : String} {d : Document} (h : parse text = .ok d) :
    Readable d := by
  obtain ⟨w, o, r, written, -, -, hvalue, hdepth, hd⟩ := parse_eq_ok_iff.mp h
  have hwithin : Within 257 o d := ⟨_, hvalue, hdepth, hd⟩
  obtain ⟨entries, hentries, hdistinct⟩ := exists_object_of_parse h
  exact ⟨⟨entries, hentries⟩, hdistinct, depth_le_of_within hwithin, numeric_of_within hwithin⟩

/-! ## The text of a document -/

mutual

/-- A document written without blanks. -/
def write : Document → String
  | .object entries => "\x7b" ++ ",".intercalate (writeEntries entries) ++ "\x7d"
  | .array items => "[" ++ ",".intercalate (writeItems items) ++ "]"
  | .string text => Quoted.write text
  | .number text => text
  | .bool true => "true"
  | .bool false => "false"
  | .null => "null"

def writeEntries : List (String × Document) → List String
  | [] => []
  | (key, value) :: entries => (Quoted.write key ++ ":" ++ value.write) :: writeEntries entries

def writeItems : List Document → List String
  | [] => []
  | item :: items => item.write :: writeItems items

end

def writeEntry (e : String × Document) : String := Quoted.write e.1 ++ ":" ++ e.2.write

theorem writeEntries_eq_map (entries : List (String × Document)) :
    writeEntries entries = entries.map writeEntry := by
  induction entries with
  | nil => rfl
  | cons e entries ih => rw [writeEntries, ih, List.map_cons, writeEntry]

theorem writeItems_eq_map (items : List Document) : writeItems items = items.map write := by
  induction items with
  | nil => rfl
  | cons item items ih => rw [writeItems, ih, List.map_cons]

theorem value_write {d : Document} (h : Numeric d) : Value d.write.toList d := by
  induction d with
  | object entries ih =>
      have hentry : ∀ e ∈ entries, Entry Value (writeEntry e).toList (id e) := by
        intro e he
        have hvalue := ih e he (h.of_part (.entry he .self))
        simpa [writeEntry] using entry_write e.1 hvalue
      have hentries := Value.object (Text.enclosed_intercalate hentry)
      rw [List.map_id] at hentries
      rw [write, writeEntries_eq_map]
      simpa using hentries
  | array items ih =>
      have hitem : ∀ item ∈ items, Value item.write.toList (id item) :=
        fun item hitem ↦ ih item hitem (h.of_part (.item hitem .self))
      have hitems := Value.array (Text.enclosed_intercalate hitem)
      rw [List.map_id] at hitems
      rw [write, writeItems_eq_map]
      simpa using hitems
  | string text => exact .scalar (scalar_write text)
  | number text =>
      have hscalar := Scalar.number (h text .self)
      rw [String.ofList_toList] at hscalar
      exact .scalar hscalar
  | bool value =>
      cases value with
      | false => exact .scalar .false
      | true => exact .scalar .true
  | null => exact .scalar .null

/-- Where no key repeats, there is nothing to merge. -/
theorem resolved_of_distinct {d : Document} (h : Distinct d) : d.resolved = d := by
  induction d with
  | object entries ih =>
      have hentries : entries.map (fun e ↦ (e.1, e.2.resolved)) = entries :=
        calc entries.map (fun e ↦ (e.1, e.2.resolved))
          _ = entries.map id :=
              List.map_congr_left fun e he ↦ Prod.ext rfl (ih e he (h.of_part (.entry he .self)))
          _ = entries := List.map_id entries
      rw [resolved, resolvedEntries_eq_map, hentries, merged_of_nodup (h entries .self)]
  | array items ih =>
      have hitems : items.map resolved = items :=
        calc items.map resolved
          _ = items.map id :=
              List.map_congr_left fun item hitem ↦ ih item hitem (h.of_part (.item hitem .self))
          _ = items := List.map_id items
      rw [resolved, resolvedItems_eq_map, hitems]
  | _ => rfl

theorem Readable.parse_write {d : Document} (h : Readable d) : parse d.write = .ok d := by
  obtain ⟨entries, rfl⟩ := h.exists_entries
  rw [parse_of_value (value_write h.numeric) h.depth_le, resolved_of_distinct h.distinct]

/-! ## The image of reading -/

theorem readable_entry (key text : String) : Readable (.object [(key, .string text)]) where
  exists_entries := ⟨_, rfl⟩
  distinct entries hentries := by
    rcases part_object_iff.mp hentries with heq | ⟨e, he, hentries⟩
    · cases heq
      exact List.nodup_singleton key
    · obtain rfl := List.mem_singleton.mp he
      cases hentries
  depth_le := by simp [depth, entriesDepth]
  numeric := by
    apply numeric_object
    intro e he
    obtain rfl := List.mem_singleton.mp he
    exact numeric_of_scalar (scalar_write text)

/-- A document is read from some text exactly if it is an object, no object in it has a key twice,
its containers nest at most 257 deep, itself included, and each of its numbers is a numeral. Any
text may be a key or a string. -/
theorem exists_parse_iff :
    (∀ d : Document, (∃ text, parse text = .ok d) ↔
      (∃ entries, d = .object entries) ∧
      (∀ entries, Part (.object entries) d → (entries.map (·.1)).Nodup) ∧
      d.depth ≤ 257 ∧
      ∀ text, Part (.number text) d → Number text.toList) ∧
    ∀ key text : String, ∃ t, parse t = .ok (.object [(key, .string text)]) := by
  constructor
  · intro d
    constructor
    · rintro ⟨text, h⟩
      have hd := readable_of_parse h
      exact ⟨hd.exists_entries, hd.distinct, hd.depth_le, hd.numeric⟩
    · rintro ⟨hentries, hdistinct, hdepth, hnumeric⟩
      have hd : Readable d := ⟨hentries, hdistinct, hdepth, hnumeric⟩
      exact ⟨d.write, hd.parse_write⟩
  · intro key text
    exact ⟨_, (readable_entry key text).parse_write⟩

end Dialogue.Document
