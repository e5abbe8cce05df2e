import Dialogue.Proofs.Document.PathText

/-!
# Rendered paths

A path is rendered segment by segment: a key stands after a dot, unless it is the first segment, and
an index stands in brackets. The texts that denote a path are its renderings, where an index may
have zeros in front of it.

The dot that a first key lacks makes two kinds of lists unreadable. An empty key on its own is
rendered as the empty text, which is the root's, and an empty key before an index as that index
alone. No text denotes these lists, as none denotes a list with a dot or an opening bracket in a key
or with an index that needs more than 64 bits.
-/

namespace Dialogue

/-- What a segment adds to the text of a path that starts with it. -/
def Segment.writeFirst (zeros : Nat) : Segment → List Char
  | .key name => name.toList
  | .index i => (Segment.index i).write zeros

namespace Path

/-- The segments of a path, each with the number of needless zeros that it is rendered with if it is
an index. -/
abbrev Padded := List (Nat × Segment)

namespace Padded

def path (padded : Padded) : Path := padded.map (·.2)

/-- The text from some place on. -/
def suffix (padded : Padded) : List Char := padded.flatMap fun e ↦ e.2.write e.1

def render : Padded → List Char
  | [] => []
  | (zeros, segment) :: padded => segment.writeFirst zeros ++ suffix padded

@[simp] theorem path_cons (zeros : Nat) (segment : Segment) (padded : Padded) :
    path ((zeros, segment) :: padded) = segment :: path padded := rfl

@[simp] theorem suffix_cons (zeros : Nat) (segment : Segment) (padded : Padded) :
    suffix ((zeros, segment) :: padded) = segment.write zeros ++ suffix padded := rfl

/-- Only the dot before a first key makes a difference. -/
theorem dot_render_key (zeros : Nat) (name : String) (padded : Padded) :
    '.' :: render ((zeros, .key name) :: padded) = suffix ((zeros, .key name) :: padded) := rfl

theorem render_index (zeros i : Nat) (padded : Padded) :
    render ((zeros, .index i) :: padded) = suffix ((zeros, .index i) :: padded) := rfl

end Padded

/-- The text is a rendering of the path, with any number of zeros before each index. -/
def RenderedBy (path : Path) (text : String) : Prop :=
  ∃ padded : Padded, padded.path = path ∧ text.toList = padded.render

/-- The paths that can be told by their renderings. -/
structure Admissible (path : Path) : Prop where
  writable : path.Writable
  ne_emptyKey : path ≠ [.key ""]
  ne_emptyKey_index : ∀ i rest, path ≠ .key "" :: .index i :: rest

/-! ## From some place on -/

theorem spells_iff_padded {s : List Char} {path : Path} :
    Spells s path ↔ path.Writable ∧ ∃ padded : Padded, padded.path = path ∧ s = padded.suffix := by
  constructor
  · intro h
    induction h with
    | nil => exact ⟨List.forall_mem_nil _, [], rfl, rfl⟩
    | @cons segment s path zeros hsegment _ ih =>
        obtain ⟨hwritable, padded, rfl, rfl⟩ := ih
        exact ⟨List.forall_mem_cons.mpr ⟨hsegment, hwritable⟩, (zeros, segment) :: padded, rfl, rfl⟩
  · rintro ⟨hwritable, padded, rfl, rfl⟩
    induction padded with
    | nil => exact .nil
    | cons e padded ih =>
        obtain ⟨hsegment, hwritable⟩ := List.forall_mem_cons.mp hwritable
        exact .cons e.1 hsegment (ih hwritable)

theorem Spells.exists_key {s : List Char} {path : Path} (h : Spells ('.' :: s) path) :
    ∃ name path', path = .key name :: path' := by
  generalize hs : '.' :: s = t at h
  cases h with
  | nil => cases hs
  | @cons segment _ path _ _ _ =>
      cases segment with
      | key name => exact ⟨name, path, rfl⟩
      | index i => exact absurd (List.cons.inj hs).1 (by decide)

/-! ## From the root -/

theorem written_iff_spells_dot {s : List Char} (hne : s ≠ []) (hbracket : ∀ t, s ≠ '[' :: t)
    (path : Path) : Written s path ↔ Spells ('.' :: s) path := by
  rw [Written.eq_def]
  split
  · exact absurd rfl hne
  · next t => exact absurd rfl (hbracket t)
  · rfl

theorem rendered_of_spells_bracket {s : List Char} {path : Path} (h : Spells ('[' :: s) path) :
    path.Admissible ∧ ∃ padded : Padded, padded.path = path ∧ '[' :: s = padded.render := by
  obtain ⟨i, path', rfl⟩ := h.exists_index
  obtain ⟨hwritable, padded, hpath, hs⟩ := spells_iff_padded.mp h
  cases padded with
  | nil => cases hpath
  | cons e padded =>
      obtain ⟨zeros, segment⟩ := e
      obtain rfl : segment = .index i := (List.cons.inj hpath).1
      rw [← Padded.render_index] at hs
      exact ⟨⟨hwritable, nofun, nofun⟩, _, hpath, hs⟩

theorem rendered_of_spells_dot {s : List Char} {path : Path} (hne : s ≠ [])
    (hbracket : ∀ t, s ≠ '[' :: t) (h : Spells ('.' :: s) path) :
    path.Admissible ∧ ∃ padded : Padded, padded.path = path ∧ s = padded.render := by
  obtain ⟨name, path', rfl⟩ := h.exists_key
  obtain ⟨hwritable, padded, hpath, hs⟩ := spells_iff_padded.mp h
  cases padded with
  | nil => cases hpath
  | cons e padded =>
      obtain ⟨zeros, segment⟩ := e
      obtain ⟨rfl, rfl⟩ : segment = .key name ∧ Padded.path padded = path' :=
        List.cons.inj hpath
      rw [← Padded.dot_render_key] at hs
      have hrender : s = Padded.render ((zeros, .key name) :: padded) := (List.cons.inj hs).2
      refine ⟨⟨hwritable, ?_, ?_⟩, _, rfl, hrender⟩
      · intro heq
        obtain ⟨rfl, rfl⟩ : name = "" ∧ padded = [] := by simpa [Padded.path] using heq
        exact hne hrender
      · intro i rest heq
        obtain ⟨hkey, hrest⟩ := List.cons.inj heq
        cases hkey
        cases padded with
        | nil => cases hrest
        | cons e padded =>
            obtain ⟨zeros', segment⟩ := e
            obtain rfl : segment = .index i := (List.cons.inj hrest).1
            exact hbracket _ hrender

/-- The rendering of an admissible path does not pass for another one's. -/
theorem Admissible.render_key {name : String} {padded : Padded}
    (h : Admissible (.key name :: padded.path)) (zeros : Nat) :
    Padded.render ((zeros, .key name) :: padded) ≠ [] ∧
      ∀ t, Padded.render ((zeros, .key name) :: padded) ≠ '[' :: t := by
  rw [Padded.render, Segment.writeFirst]
  cases hname : name.toList with
  | cons c s =>
      have hc : c ∈ name.toList := hname ▸ List.mem_cons_self
      refine ⟨nofun, fun t ht ↦ ?_⟩
      exact (h.writable _ List.mem_cons_self c hc).2 (List.cons.inj ht).1
  | nil =>
      obtain rfl : name = "" := String.toList_eq_nil_iff.mp hname
      cases padded with
      | nil => exact absurd rfl h.ne_emptyKey
      | cons e padded =>
          obtain ⟨zeros', segment⟩ := e
          cases segment with
          | key name' => exact ⟨nofun, fun t ht ↦ absurd (List.cons.inj ht).1 (by decide)⟩
          | index i => exact absurd rfl (h.ne_emptyKey_index i (Padded.path padded))

theorem written_iff_rendered {s : List Char} {path : Path} :
    Written s path ↔
      path.Admissible ∧ ∃ padded : Padded, padded.path = path ∧ s = padded.render := by
  constructor
  · intro h
    by_cases hne : s = []
    · subst hne
      obtain rfl : path = [] := h
      exact ⟨⟨List.forall_mem_nil _, nofun, nofun⟩, [], rfl, rfl⟩
    by_cases hbracket : ∃ t, s = '[' :: t
    · obtain ⟨t, rfl⟩ := hbracket
      exact rendered_of_spells_bracket h
    · have hbracket : ∀ t, s ≠ '[' :: t := not_exists.mp hbracket
      exact rendered_of_spells_dot hne hbracket ((written_iff_spells_dot hne hbracket path).mp h)
  · rintro ⟨hpath, padded, rfl, rfl⟩
    have hspells : Spells padded.suffix padded.path :=
      spells_iff_padded.mpr ⟨hpath.writable, padded, rfl, rfl⟩
    cases padded with
    | nil => rfl
    | cons e padded =>
        obtain ⟨zeros, segment⟩ := e
        cases segment with
        | key name =>
            obtain ⟨hne, hbracket⟩ := hpath.render_key zeros
            rw [← Padded.dot_render_key] at hspells
            exact (written_iff_spells_dot hne hbracket _).mpr hspells
        | index i =>
            rw [Padded.render_index]
            exact hspells

/-- A text denotes a path exactly if the path is admissible and the text is a rendering of it. So a
text that is no such rendering denotes none. -/
theorem ofText?_inverts_rendering (text : String) :
    (∀ path, ofText? text = some path ↔ Admissible path ∧ RenderedBy path text) ∧
      (ofText? text = none ↔ ∀ path, Admissible path → ¬RenderedBy path text) := by
  have hiff (path : Path) :
      ofText? text = some path ↔ Admissible path ∧ RenderedBy path text :=
    ofText?_eq_some_iff.trans written_iff_rendered
  refine ⟨hiff, ?_⟩
  rw [Option.eq_none_iff_forall_ne_some]
  exact forall_congr' fun path ↦ (not_congr (hiff path)).trans not_and

/-- A closing bracket may stand in a key, and an empty key before an index unless at the start. -/
example : ofText? "a]..[007]" = some [.key "a]", .key "", .key "", .index 7] := by decide

end Path

end Dialogue
