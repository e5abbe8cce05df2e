import Dialogue.Host.Message
import Dialogue.Proofs.Json.Writing
import Dialogue.Proofs.Keyed

/-!
# Reading messages

A record is written as an object that has each of its fields once, so its fields are found again
under their names, and a node that was written is read back as it was.
-/

namespace Dialogue

/-! ## Records -/

namespace Json

/-- The values of some members are found under the names of these. -/
theorem fields?_of_subset {members found : List (String × Json)}
    (hnodup : (members.map (·.1)).Nodup) (h : found ⊆ members) :
    (Json.object members).fields? (found.map (·.1)) = some (found.map (·.2)) := by
  rw [fields?, List.mapM_map]
  refine mapM_eq_some_map fun m hm ↦ ?_
  rw [Function.comp_apply, filter_key_eq_singleton hnodup (h hm)]

theorem plain_of_mem_zip {names : List String} {values : List Json} (h : ∀ v ∈ values, Plain v) :
    Plain (.object (names.zip values)) :=
  .object fun _ hm ↦ h _ (List.of_mem_zip hm).2

end Json

open Json (Plain)

/-! ## Nodes -/

theorem Choice.plain_toJson (c : Choice) : Plain c.toJson := by
  refine .object ?_
  simp [Plain.string]

theorem Choice.ofJson?_toJson (c : Choice) : Choice.ofJson? c.toJson = some c := by
  have hnodup : ["text", "next"].Nodup := by decide
  have hfields : c.toJson.fields? ["text", "next"] = some [.string c.text, .string c.next] :=
    Json.fields?_of_subset (by exact hnodup) (List.Subset.refl _)
  rw [ofJson?, hfields]
  rfl

namespace Node

theorem plain_toJson (n : Node) : Plain n.toJson := by
  refine Json.plain_of_mem_zip ?_
  have hchoices : Plain (.array (n.choices.map Choice.toJson)) := by
    refine .array fun v hv ↦ ?_
    obtain ⟨c, -, rfl⟩ := List.mem_map.mp hv
    exact c.plain_toJson
  simp [Plain.string, hchoices]

theorem fields?_toJson (n : Node) :
    n.toJson.fields? fieldNames = some
      [.string n.id, .string n.kind.name, .string n.speaker, .string n.text, .string n.next,
        .array (n.choices.map Choice.toJson), .string n.background, .string n.character,
        .string n.expression, .string n.music, .string n.sound] := by
  have hnodup : fieldNames.Nodup := by decide
  exact Json.fields?_of_subset (by exact hnodup) (List.Subset.refl _)

theorem ofJson?_toJson (n : Node) : ofJson? n.toJson = some n := by
  have hkind : NodeKind.ofJson? (.string n.kind.name) = some n.kind := NodeKind.ofName?_name n.kind
  have hchoices : (n.choices.map Choice.toJson).mapM Choice.ofJson? = some n.choices := by
    have hread : ∀ c ∈ n.choices, (Choice.ofJson? ∘ Choice.toJson) c = some c :=
      fun c _ ↦ c.ofJson?_toJson
    rw [List.mapM_map, mapM_eq_some_map hread, List.map_id']
  rw [ofJson?, fields?_toJson]
  -- Texts are read as they stand, which leaves the kind and the choices.
  change ((NodeKind.ofJson? (.string n.kind.name)).bind fun kind ↦
    ((n.choices.map Choice.toJson).mapM Choice.ofJson?).bind fun choices ↦
      some { n with kind, choices }) = some n
  rw [hkind, hchoices]
  rfl

end Node

/-! ## Dangling links -/

namespace Script.Dangling

theorem plain_toJson (d : Dangling) : Plain d.toJson := by
  have hlink : Plain d.link.toJson := by
    cases d.link with
    | next => exact .null
    | choice i => exact .int i
  refine .object ?_
  simp [Plain.string, hlink]

theorem message_toJson (d : Dangling) :
    d.toJson.fields? ["message"] = some [.string d.message] := by
  have hnodup : ["from", "choice", "target", "message"].Nodup := by decide
  have hmember : [("message", Json.string d.message)] ⊆ [("from", .string d.source),
      ("choice", d.link.toJson), ("target", .string d.target), ("message", .string d.message)] := by
    simp
  exact Json.fields?_of_subset (by exact hnodup) hmember

end Script.Dangling

end Dialogue
