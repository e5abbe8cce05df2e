import Dialogue.Proofs.Json.Reading
import Dialogue.Proofs.Json.Writing
import Dialogue.Proofs.State.Restoring

/-!
# Save texts as JSON

Save texts escape quotes, backslashes and five control characters. The other control characters
stand for themselves in them, which documents allow and JSON does not. So a save text is JSON
exactly if no string in it has such a character, and then it is the compact text of a value that
shows all of the state but its limit.
-/

namespace Dialogue.State

open Json (Allowed Plain)
open Text (Quoted.escape Quoted.write)

/-! ## Strings -/

/-- A control character that save texts do not escape. -/
def Bare (c : Char) : Prop := c.toNat < 0x20 ∧ c ∉ ['\x08', '\t', '\n', '\x0c', '\r']

instance : DecidablePred Bare := fun _ ↦ inferInstanceAs (Decidable (_ ∧ _))

theorem escape_of_bare {c : Char} (h : Bare c) : Quoted.escape c = [c] := by
  obtain ⟨hlow, hnot⟩ := h
  fun_cases Quoted.escape c with
  | case8 => rfl
  | case1 => exact absurd hlow (by decide)
  | case2 => exact absurd hlow (by decide)
  | _ => simp at hnot

theorem not_allowed_of_bare {c : Char} (h : Bare c) : ¬Allowed c := by
  obtain ⟨hlow, hnot⟩ := h
  rintro (hblank | hhigh)
  · rcases List.mem_cons.mp (Text.isBlank_iff.mp hblank) with rfl | hblank
    · exact absurd hlow (by decide)
    · simp only [List.mem_cons, List.not_mem_nil, or_false, not_or] at hblank hnot
      rcases hblank with rfl | rfl | rfl <;> simp at hnot
  · exact absurd hlow (Nat.not_lt.mpr hhigh)

/-- All other characters are escaped as JSON asks. -/
theorem escape_of_not_bare {c : Char} (h : ¬Bare c) : Quoted.escape c = Json.escape c := by
  fun_cases Quoted.escape c with
  | case8 c hquote hbackslash hlf hcr htab hbs hff =>
      have hhigh : ¬c.toNat < 0x20 := by
        intro hlow
        refine h ⟨hlow, ?_⟩
        simp only [List.mem_cons, List.not_mem_nil, or_false, not_or]
        exact ⟨hbs, htab, hlf, hff, hcr⟩
      rw [Json.escape.eq_8 c hquote hbackslash hbs hff hlf hcr htab, if_neg hhigh]
  | _ => rfl

theorem toList_write_eq_quote {text : String} (h : ∀ c ∈ text.toList, ¬Bare c) :
    (Quoted.write text).toList = Json.quote text := by
  have hescape : text.toList.flatMap Quoted.escape = text.toList.flatMap Json.escape :=
    List.flatMap_congr fun c hc ↦ escape_of_not_bare (h c hc)
  rw [Document.toList_write, hescape, Json.quote, List.cons_append]

theorem mem_write_of_bare {text : String} {c : Char} (hc : c ∈ text.toList) (h : Bare c) :
    c ∈ (Quoted.write text).toList := by
  have hinside : c ∈ text.toList.flatMap Quoted.escape := by
    rw [List.mem_flatMap]
    exact ⟨c, hc, by simp [escape_of_bare h]⟩
  rw [Document.toList_write]
  exact List.mem_cons_of_mem _ (List.mem_append_left _ hinside)

/-! ## The text of a state -/

/-- The strings that the text of a state has between quotes, besides the names of its parts. -/
def strings (s : State) : List String := s.current :: (s.values.entries.map (·.1) ++ s.history)

/-- The control characters in the strings of a state are all among those that are escaped. -/
def Escaped (s : State) : Prop := ∀ text ∈ s.strings, ∀ c ∈ text.toList, ¬Bare c

def valueMembers (values : Table Int32) : List (String × Json) :=
  values.entries.map fun e ↦ (e.1, .ofInt e.2)

/-- The value that shows a state. -/
def toJson (s : State) : Json :=
  .object [("currentNode", .string s.current), ("variables", .object (valueMembers s.values)),
    ("history", .array (s.history.map .string))]

theorem nodup_valueMembers (values : Table Int32) :
    ((valueMembers values).map (·.1)).Nodup := by
  rw [valueMembers, List.map_map]
  exact values.nodup_keys

theorem mem_valueMembers_iff {values : Table Int32} {name : String} {v : Json} :
    (name, v) ∈ valueMembers values ↔
      ∃ value, values.get? name = some value ∧ v = .ofInt value := by
  simp only [Table.get?_eq_some_iff, valueMembers, List.mem_map, Prod.mk.injEq]
  constructor
  · rintro ⟨⟨name, value⟩, he, rfl, rfl⟩
    exact ⟨value, he, rfl⟩
  · rintro ⟨value, he, rfl⟩
    exact ⟨(name, value), he, rfl, rfl⟩

theorem plain_toJson (s : State) : Plain s.toJson := by
  have hvalues : Plain (.object (valueMembers s.values)) := by
    refine .object fun m hm ↦ ?_
    obtain ⟨e, -, rfl⟩ := List.mem_map.mp hm
    exact .int _
  have hhistory : Plain (.array (s.history.map .string)) := by
    refine .array fun v hv ↦ ?_
    obtain ⟨id, -, rfl⟩ := List.mem_map.mp hv
    exact .string id
  refine .object ?_
  simp [Plain.string, hvalues, hhistory]

theorem Escaped.of_mem_entries {s : State} (h : s.Escaped) {e : String × Int32}
    (he : e ∈ s.values.entries) : ∀ c ∈ e.1.toList, ¬Bare c :=
  h _ (List.mem_cons_of_mem _ (List.mem_append_left _ (List.mem_map_of_mem he)))

theorem Escaped.of_mem_history {s : State} (h : s.Escaped) {id : String} (hid : id ∈ s.history) :
    ∀ c ∈ id.toList, ¬Bare c :=
  h _ (List.mem_cons_of_mem _ (List.mem_append_right _ hid))

/-- The text is then the compact one of the value that shows the state. -/
theorem Escaped.save_eq_write {s : State} (h : s.Escaped) : s.save = s.toJson.write := by
  have hcurrent : (Json.string s.current).render = (Quoted.write s.current).toList :=
    (toList_write_eq_quote (h _ List.mem_cons_self)).symm
  have hvalues : (Json.object (valueMembers s.values)).render =
      '{' :: ((",".intercalate (s.values.entries.map saveVariable)).toList ++ ['}']) := by
    refine Json.render_object_map fun e he ↦ ?_
    rw [saveVariable, String.toList_append, String.toList_append,
      toList_write_eq_quote (h.of_mem_entries he), Json.renderMember_eq, List.append_assoc]
    rfl
  have hhistory : (Json.array (s.history.map .string)).render =
      '[' :: ((",".intercalate (s.history.map Quoted.write)).toList ++ [']']) :=
    Json.render_array_map fun id hid ↦ toList_write_eq_quote (h.of_mem_history hid)
  have hparts : Json.quote "currentNode" = (Quoted.write "currentNode").toList ∧
      Json.quote "variables" = (Quoted.write "variables").toList ∧
      Json.quote "history" = (Quoted.write "history").toList := ⟨rfl, rfl, rfl⟩
  rw [Json.write, toJson, Json.render_object_cons]
  simp only [List.flatMap_cons, List.flatMap_nil, Json.renderMember_eq, hcurrent, hvalues,
    hhistory, hparts]
  rw [← String.toList_inj, save_eq, String.toList_ofList]
  simp

/-! ## What is read -/

theorem mem_intercalate {texts : List String} {text : String} {c : Char} (h : text ∈ texts)
    (hc : c ∈ text.toList) : c ∈ (",".intercalate texts).toList := by
  induction texts with
  | nil => cases h
  | cons t texts ih =>
      cases texts with
      | nil =>
          obtain rfl := List.mem_singleton.mp h
          rwa [String.intercalate_singleton]
      | cons u texts =>
          rw [String.intercalate_cons_cons, String.toList_append, String.toList_append]
          rcases List.mem_cons.mp h with rfl | h
          · exact List.mem_append_left _ (List.mem_append_left _ hc)
          · exact List.mem_append_right _ (ih h)

theorem mem_save_of_bare {s : State} {text : String} {c : Char} (h : text ∈ s.strings)
    (hc : c ∈ text.toList) (hbare : Bare c) : c ∈ s.save.toList := by
  have hwrite := mem_write_of_bare hc hbare
  rw [save_eq]
  simp only [String.toList_append, List.mem_append]
  simp only [strings, List.mem_cons, List.mem_append, List.mem_map] at h
  rcases h with rfl | ⟨e, he, rfl⟩ | hid
  · simp only [hwrite, true_or, or_true]
  · have hvariable : c ∈ (",".intercalate (s.values.entries.map saveVariable)).toList := by
      refine mem_intercalate (List.mem_map_of_mem he) ?_
      rw [saveVariable, String.toList_append, String.toList_append]
      exact List.mem_append_left _ (List.mem_append_left _ hwrite)
    simp only [hvariable, true_or, or_true]
  · have hhistory : c ∈ (",".intercalate (s.history.map Quoted.write)).toList :=
      mem_intercalate (List.mem_map_of_mem hid) hwrite
    simp only [hhistory, true_or, or_true]

theorem escaped_of_parse?_save {s : State} {j : Json} (h : Json.parse? s.save = some j) :
    s.Escaped := by
  intro text htext c hc hbare
  have hallowed := Json.allowed_of_parse? h c (mem_save_of_bare htext hc hbare)
  exact not_allowed_of_bare hbare hallowed

theorem Escaped.parse?_save {s : State} (h : s.Escaped) : Json.parse? s.save = some s.toJson := by
  rw [h.save_eq_write, Json.parse?_write s.plain_toJson]

/-- The text of a state is standard JSON exactly if its strings have no control characters but the
five that are escaped, and then it denotes the value that shows the state, in which each variable
has its integer. -/
theorem save_standard_iff (s : State) :
    (∀ j, Json.parse? s.save = some j ↔ s.Escaped ∧ j = s.toJson) ∧
    ((valueMembers s.values).map (·.1)).Nodup ∧
    ∀ name v, (name, v) ∈ valueMembers s.values ↔
      ∃ value, s.values.get? name = some value ∧ v = .ofInt value := by
  refine ⟨fun j ↦ ?_, nodup_valueMembers s.values, fun _ _ ↦ mem_valueMembers_iff⟩
  constructor
  · intro h
    have hescaped := escaped_of_parse?_save h
    rw [hescaped.parse?_save] at h
    exact ⟨hescaped, (Option.some.inj h).symm⟩
  · rintro ⟨hescaped, rfl⟩
    exact hescaped.parse?_save

/-- A control character may stand in the name of a variable. -/
theorem parse?_save_control_character :
    Json.parse? ((fresh none).setVariable "\x01" 1).save = none := by
  have hname : "\x01" ∈ ((fresh none).setVariable "\x01" 1).strings := by decide
  have hcharacter : '\x01' ∈ "\x01".toList := by decide
  apply Option.eq_none_iff_forall_ne_some.mpr
  intro j h
  exact escaped_of_parse?_save h _ hname _ hcharacter (by decide)

end Dialogue.State
