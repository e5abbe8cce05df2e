import Dialogue.Files
import Mathlib.Data.List.Basic

/-!
# Files in a directory

A program that is started in a directory without subdirectories reads a text where a path names a
file of the directory. Nothing but empty names and dots may stand before that name, since there is
nothing behind a file, and no way back into a directory that was left.
-/

namespace Dialogue.Files

namespace Place

variable {contents : List (String × ByteArray)} {bytes found : ByteArray} {name : String}
  {names : List String}

/-! ## Steps -/

/-- Names that lead from a directory to itself. -/
def Stays (name : String) : Prop := name = "" ∨ name = "."

/-- Names that files can have. -/
structure Plain (name : String) : Prop where
  not_stays : ¬Stays name
  ne_parent : name ≠ ".."
  size_le : name.utf8ByteSize ≤ nameLimit

theorem step_of_stays (h : Stays name) :
    step (.directory contents) name = .ok (.directory contents) :=
  if_pos h

theorem step_of_parent : step (.directory contents) ".." = .ok outside := rfl

theorem step_of_long (h : ¬Stays name) (hparent : name ≠ "..")
    (hlong : nameLimit < name.utf8ByteSize) :
    step (.directory contents) name = .error .nameTooLong := by
  rw [Stays] at h
  rw [step, if_neg h, if_neg hparent, if_pos hlong]

theorem step_of_plain (h : Plain name) :
    step (.directory contents) name =
      match contents.lookup name with
      | some bytes => .ok (.file bytes)
      | none => .error .notFound := by
  have hstays := h.not_stays
  rw [Stays] at hstays
  rw [step, if_neg hstays, if_neg h.ne_parent]
  exact if_neg (Nat.not_lt.mpr h.size_le)

/-! ## Walks -/

/-- Names that stay, and the name of a file after them. -/
inductive Leads (contents : List (String × ByteArray)) (bytes : ByteArray) : List String → Prop
  | stay {name : String} {names : List String} :
      Stays name → Leads contents bytes names → Leads contents bytes (name :: names)
  | found {name : String} :
      Plain name → contents.lookup name = some bytes → Leads contents bytes [name]

theorem not_leads_of_empty : ¬Leads [] bytes names := by
  intro h
  induction h with
  | stay _ _ ih => exact ih
  | found _ hlookup => cases hlookup

theorem leads_cons_iff_of_stays (h : Stays name) :
    Leads contents bytes (name :: names) ↔ Leads contents bytes names := by
  constructor
  · intro hleads
    cases hleads with
    | stay _ hleads => exact hleads
    | found hname _ => exact absurd h hname.not_stays
  · exact .stay h

theorem leads_cons_iff_of_not_stays (h : ¬Stays name) :
    Leads contents bytes (name :: names) ↔
      Plain name ∧ contents.lookup name = some bytes ∧ names = [] := by
  constructor
  · intro hleads
    cases hleads with
    | stay hstays _ => exact absurd hstays h
    | found hname hlookup => exact ⟨hname, hlookup, rfl⟩
  · rintro ⟨hname, hlookup, rfl⟩
    exact .found hname hlookup

theorem foldlM_file_eq_ok_iff :
    names.foldlM step (.file found) = .ok (.file bytes) ↔ found = bytes ∧ names = [] := by
  cases names with
  | nil =>
      rw [List.foldlM_nil]
      change Except.ok (Place.file found) = Except.ok (Place.file bytes) ↔ _
      simp
  | cons name names =>
      rw [List.foldlM_cons]
      change Except.error ReadError.notDirectory = Except.ok (Place.file bytes) ↔ _
      simp

theorem foldlM_eq_ok_iff_leads :
    names.foldlM step (.directory contents) = .ok (.file bytes) ↔ Leads contents bytes names := by
  induction names generalizing contents with
  | nil =>
      constructor
      · intro h
        cases h
      · intro h
        cases h
  | cons name names ih =>
      rw [List.foldlM_cons]
      by_cases hstays : Stays name
      · rw [step_of_stays hstays, leads_cons_iff_of_stays hstays]
        exact ih
      rw [leads_cons_iff_of_not_stays hstays]
      by_cases hparent : name = ".."
      · subst hparent
        rw [step_of_parent]
        refine iff_of_false (fun h ↦ not_leads_of_empty (ih.mp h)) fun h ↦ h.1.ne_parent rfl
      by_cases hlong : nameLimit < name.utf8ByteSize
      · rw [step_of_long hstays hparent hlong]
        refine iff_of_false nofun fun h ↦ absurd h.1.size_le (Nat.not_le.mpr hlong)
      have hname : Plain name := ⟨hstays, hparent, Nat.le_of_not_lt hlong⟩
      rw [step_of_plain hname]
      cases hlookup : contents.lookup name with
      | none => exact iff_of_false nofun fun h ↦ nomatch h.2.1
      | some found =>
          simp only [hname, true_and, Option.some.injEq]
          exact foldlM_file_eq_ok_iff

/-- The empty path is one empty name. -/
theorem not_leads_names_empty : ¬Leads contents bytes (Place.names "") := by
  intro h
  cases h with
  | stay _ h => cases h
  | found hname _ => exact hname.not_stays (.inl rfl)

theorem walk_eq_ok_iff {path : String} :
    (directory contents).walk path = .ok (.file bytes) ↔
      Leads contents bytes (Place.names path) :=
  foldlM_eq_ok_iff_leads

end Place

/-! ## Texts -/

section Texts

variable {contents : List (String × ByteArray)} {path text : String}

/-- The walk decides which bytes are read, if any. -/
theorem read_walk_eq_ok_iff :
    (match (Place.directory contents).walk path with
      | .ok (.file bytes) => decode bytes
      | .ok (.directory _) => .error .isDirectory
      | .error e => .error e) = .ok text ↔
    ∃ bytes, Place.Leads contents bytes (Place.names path) ∧ decode bytes = .ok text := by
  constructor
  · intro h
    split at h
    · next bytes hwalk => exact ⟨bytes, Place.walk_eq_ok_iff.mp hwalk, h⟩
    · cases h
    · cases h
  · rintro ⟨bytes, hleads, hdecode⟩
    rw [Place.walk_eq_ok_iff.mpr hleads]
    exact hdecode

/-- A path leads to a text exactly if it may be used at all, starts inside the directory and names a
file that holds the text. -/
theorem ofDirectory_eq_ok_iff :
    ofDirectory contents path = .ok text ↔
      ¬path.contains '\x00' ∧ path.utf8ByteSize < pathLimit ∧ ¬path.startsWith "/" ∧
      ∃ bytes, Place.Leads contents bytes (Place.names path) ∧ decode bytes = .ok text := by
  rw [ofDirectory]
  split
  · next hbroken => exact iff_of_false nofun fun h ↦ h.1 hbroken
  next hunbroken =>
  split
  · next hempty =>
      subst hempty
      refine iff_of_false nofun fun h ↦ ?_
      obtain ⟨-, -, -, bytes, hleads, -⟩ := h
      exact Place.not_leads_names_empty hleads
  split
  · next hlong => exact iff_of_false nofun fun h ↦ absurd h.2.1 (Nat.not_lt.mpr hlong)
  next hshort =>
  by_cases hleading : path.startsWith "/"
  · rw [if_pos hleading]
    refine iff_of_false (fun h ↦ ?_) fun h ↦ h.2.2.1 hleading
    obtain ⟨bytes, hleads, -⟩ := read_walk_eq_ok_iff.mp h
    exact Place.not_leads_of_empty hleads
  · rw [if_neg hleading]
    have hsize : path.utf8ByteSize < pathLimit := Nat.lt_of_not_le hshort
    refine read_walk_eq_ok_iff.trans ⟨fun h ↦ ⟨hunbroken, hsize, hleading, h⟩, ?_⟩
    exact fun h ↦ h.2.2.2

example : ofDirectory [("a", ⟨#[98]⟩)] ".//a" = .ok "b" := by cbv

end Texts

end Dialogue.Files
