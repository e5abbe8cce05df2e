import Dialogue.Document.Path
import Dialogue.Proofs.Text.Decimal
import Dialogue.Proofs.Text.Pieces

/-!
# The texts that paths may have

A path is spelled segment by segment, each with a character of its own in front: a dot before a key
and a bracket before an index. No segment has these characters inside, so a text can be taken apart
in one way only. The root is written as the empty text, and the dot before a first key is left out.
-/

namespace Dialogue

open Text (pieces)
open Text.Decimal (bound64)

/-! ## Spelling -/

namespace Segment

/-- What a segment adds to the text of a path, with zeros before an index. -/
def write (zeros : Nat) : Segment → List Char
  | .key name => '.' :: name.toList
  | .index i => '[' :: (List.replicate zeros '0' ++ Nat.toDigits 10 i ++ [']'])

/-- The segments that can be written so that they are read back. -/
def Writable : Segment → Prop
  | .key name => ∀ c ∈ name.toList, c ≠ '.' ∧ c ≠ '['
  | .index i => i < bound64

instance : DecidablePred Segment.Writable
  | .key name => List.decidableBAll (fun c ↦ c ≠ '.' ∧ c ≠ '[') name.toList
  | .index i => Nat.decLt i bound64

/-- Only its first character tells where a segment starts. -/
theorem Writable.of_mem_tail {segment : Segment} (h : segment.Writable) (zeros : Nat) {c : Char}
    (hc : c ∈ (segment.write zeros).tail) : c ≠ '.' ∧ c ≠ '[' := by
  cases segment with
  | key name => exact h c hc
  | index i =>
      have hc : c = ']' ∨ c.isDigit := by
        rcases List.mem_append.mp hc with hc | hc
        · exact .inr (Text.Decimal.isDigit_of_mem_padded hc)
        · exact .inl (List.mem_singleton.mp hc)
      constructor <;> rintro rfl <;> simp at hc

end Segment

namespace Path

/-- The text spells a path from some place on. -/
inductive Spells : List Char → Path → Prop
  | nil : Spells [] []
  | cons {segment : Segment} {s : List Char} {path : Path} (zeros : Nat) :
      segment.Writable → Spells s path → Spells (segment.write zeros ++ s) (segment :: path)

/-- The text is written like the path from the root. -/
def Written : List Char → Path → Prop
  | [], path => path = []
  | '[' :: s, path => Spells ('[' :: s) path
  | s, path => Spells ('.' :: s) path

theorem Spells.append {s t : List Char} {path path' : Path} (h : Spells s path)
    (h' : Spells t path') : Spells (s ++ t) (path ++ path') := by
  induction h with
  | nil => exact h'
  | cons zeros hwritable _ ih =>
      rw [List.append_assoc]
      exact .cons zeros hwritable ih

theorem Spells.exists_index {s : List Char} {path : Path} (h : Spells ('[' :: s) path) :
    ∃ i path', path = .index i :: path' := by
  generalize hs : '[' :: s = t at h
  cases h with
  | nil => cases hs
  | @cons segment _ path zeros _ _ =>
      cases segment with
      | key name => exact absurd (List.cons.inj hs).1 (by decide)
      | index i => exact ⟨i, path, rfl⟩

/-! ## Reading from some place on -/

/-- The indices that stand before the first key. -/
def indices? (part : List Char) : Option Path :=
  match pieces (· = '[') part with
  | [] :: indices => indices.mapM index?
  | _ => none

/-- What a text spells from some place on. -/
def tail? (s : List Char) : Option Path :=
  match pieces (· = '.') s with
  | [] => none
  | first :: parts => do
      let path ← indices? first
      let paths ← parts.mapM part?
      return path ++ paths.flatten

theorem index?_eq_some_iff {piece : List Char} {segment : Segment} :
    index? piece = some segment ↔ ∃ i zeros, segment = .index i ∧ segment.Writable ∧
      '[' :: piece = segment.write zeros := by
  rw [index?]
  constructor
  · intro h
    split at h
    · next digits hpiece =>
        obtain ⟨i, hi, rfl⟩ := Option.map_eq_some_iff.mp h
        obtain ⟨hlt, zeros, hzeros⟩ := Text.Decimal.nat?_eq_some_iff.mp hi
        refine ⟨i, zeros, rfl, hlt, ?_⟩
        rw [Segment.write, ← hzeros, ← List.reverse_cons, ← hpiece, List.reverse_reverse]
    · cases h
  · rintro ⟨i, zeros, rfl, hlt, hpiece⟩
    obtain rfl := (List.cons.inj hpiece).2
    rw [List.reverse_append, List.reverse_singleton, List.singleton_append]
    simp only [List.reverse_reverse]
    rw [Text.Decimal.nat?_eq_some_iff.mpr ⟨hlt, zeros, rfl⟩]
    rfl

theorem part?_eq_some_iff {part : List Char} {path : Path} :
    part? part = some path ↔ ∃ name indices path', pieces (· = '[') part = name :: indices ∧
      indices.mapM index? = some path' ∧ path = .key (.ofList name) :: path' := by
  rw [part?]
  obtain ⟨name, indices, hpart⟩ := Text.exists_pieces (· = '[') part
  simp [hpart, Option.map_eq_some_iff, eq_comm (a := path)]

theorem tail?_eq_some_iff_pieces {s : List Char} {path : Path} :
    tail? s = some path ↔ ∃ first parts indices path' paths,
      pieces (· = '.') s = first :: parts ∧ pieces (· = '[') first = [] :: indices ∧
      indices.mapM index? = some path' ∧ parts.mapM part? = some paths ∧
      path = path' ++ paths.flatten := by
  rw [tail?]
  obtain ⟨first, parts, hs⟩ := Text.exists_pieces (· = '.') s
  obtain ⟨name, indices, hfirst⟩ := Text.exists_pieces (· = '[') first
  cases name with
  | nil => simp [hs, indices?, hfirst, Option.bind_eq_some_iff, eq_comm (a := path)]
  | cons => simp [hs, indices?, hfirst]

/-! ### What is read is spelled -/

theorem spells_of_indices {pieces : List (List Char)} {path : Path}
    (h : pieces.mapM index? = some path) : Spells (pieces.flatMap ('[' :: ·)) path := by
  induction pieces generalizing path with
  | nil =>
      obtain rfl : path = [] := by simpa [eq_comm] using h
      exact .nil
  | cons piece pieces ih =>
      obtain ⟨segment, hsegment, path', hpath', rfl⟩ :
          ∃ segment, index? piece = some segment ∧
            ∃ path', pieces.mapM index? = some path' ∧ path = segment :: path' := by
        simpa [List.mapM_cons, Option.bind_eq_some_iff, eq_comm (a := path)] using h
      obtain ⟨i, zeros, -, hwritable, hpiece⟩ := index?_eq_some_iff.mp hsegment
      rw [List.flatMap_cons, hpiece]
      exact .cons zeros hwritable (ih hpath')

theorem spells_of_part {part : List Char} {path : Path} (hdot : ∀ c ∈ part, c ≠ '.')
    (h : part? part = some path) : Spells ('.' :: part) path := by
  obtain ⟨name, indices, path', hpieces, hindices, rfl⟩ := part?_eq_some_iff.mp h
  have hpart : part = name ++ indices.flatMap ('[' :: ·) := Text.eq_of_pieces hpieces
  have hwritable : (Segment.key (.ofList name)).Writable := by
    intro c hc
    rw [String.toList_ofList] at hc
    refine ⟨hdot c (hpart ▸ List.mem_append_left _ hc), ?_⟩
    have hname := Text.not_separator_of_mem_pieces (hpieces ▸ List.mem_cons_self) c hc
    simpa using hname
  have h := Spells.cons 0 hwritable (spells_of_indices hindices)
  rw [Segment.write, String.toList_ofList, List.cons_append, ← hpart] at h
  exact h

theorem spells_of_parts {parts : List (List Char)} {paths : List Path}
    (hdot : ∀ part ∈ parts, ∀ c ∈ part, c ≠ '.') (h : parts.mapM part? = some paths) :
    Spells (parts.flatMap ('.' :: ·)) paths.flatten := by
  induction parts generalizing paths with
  | nil =>
      obtain rfl : paths = [] := by simpa [eq_comm] using h
      exact .nil
  | cons part parts ih =>
      obtain ⟨path, hpath, paths', hpaths', rfl⟩ :
          ∃ path, part? part = some path ∧
            ∃ paths', parts.mapM part? = some paths' ∧ paths = path :: paths' := by
        simpa [List.mapM_cons, Option.bind_eq_some_iff, eq_comm (a := paths)] using h
      obtain ⟨hpart, hparts⟩ := List.forall_mem_cons.mp hdot
      rw [List.flatMap_cons, List.flatten_cons]
      exact (spells_of_part hpart hpath).append (ih hparts hpaths')

theorem spells_of_tail? {s : List Char} {path : Path} (h : tail? s = some path) :
    Spells s path := by
  obtain ⟨first, parts, indices, path', paths, hs, hfirst, hindices, hparts, rfl⟩ :=
    tail?_eq_some_iff_pieces.mp h
  have hdot : ∀ part ∈ parts, ∀ c ∈ part, c ≠ '.' := by
    intro part hpart c hc
    have hc := Text.not_separator_of_mem_pieces (hs ▸ List.mem_cons_of_mem _ hpart) c hc
    simpa using hc
  have hindices := spells_of_indices hindices
  have hfirst : first = indices.flatMap ('[' :: ·) := Text.eq_of_pieces hfirst
  rw [Text.eq_of_pieces hs, hfirst]
  exact hindices.append (spells_of_parts hdot hparts)

/-! ### What is spelled is read

The pieces of a longer text come from those of its tail: a key starts a new part, and an index a
new piece of the first part. -/

theorem tail?_key {name : String} {s : List Char} {path : Path}
    (hname : (Segment.key name).Writable) (h : tail? s = some path) :
    tail? ((Segment.key name).write 0 ++ s) = some (.key name :: path) := by
  obtain ⟨first, parts, indices, path', paths, hs, hfirst, hindices, hparts, rfl⟩ :=
    tail?_eq_some_iff_pieces.mp h
  have hdots : pieces (· = '.') (name.toList ++ s) = (name.toList ++ first) :: parts := by
    apply Text.pieces_append _ hs
    intro c hc
    simpa using (hname c hc).1
  have hbrackets : pieces (· = '[') (name.toList ++ first) = name.toList :: indices := by
    simpa using Text.pieces_append (fun c hc ↦ by simpa using (hname c hc).2) hfirst
  have hpart : part? (name.toList ++ first) = some (.key name :: path') :=
    part?_eq_some_iff.mpr ⟨_, indices, path', hbrackets, hindices, by rw [String.ofList_toList]⟩
  refine tail?_eq_some_iff_pieces.mpr
    ⟨[], (name.toList ++ first) :: parts, [], [], (.key name :: path') :: paths, ?_, rfl, rfl, ?_,
      ?_⟩
  · rw [Segment.write, List.cons_append, Text.pieces_cons_of_separator (by simp), hdots]
  · simp [List.mapM_cons, hpart, hparts]
  · simp

theorem tail?_index {i zeros : Nat} {s : List Char} {path : Path}
    (hi : (Segment.index i).Writable) (h : tail? s = some path) :
    tail? ((Segment.index i).write zeros ++ s) = some (.index i :: path) := by
  obtain ⟨first, parts, indices, path', paths, hs, hfirst, hindices, hparts, rfl⟩ :=
    tail?_eq_some_iff_pieces.mp h
  obtain ⟨token, htoken⟩ : ∃ token, (Segment.index i).write zeros = '[' :: token := ⟨_, rfl⟩
  have hfree : ∀ c ∈ token, c ≠ '.' ∧ c ≠ '[' := by
    intro c hc
    exact hi.of_mem_tail zeros (by rw [htoken]; exact hc)
  have hdots : pieces (· = '.') ('[' :: token ++ s) = ('[' :: token ++ first) :: parts := by
    apply Text.pieces_append _ hs
    intro c hc
    rcases List.mem_cons.mp hc with rfl | hc
    · rfl
    · simpa using (hfree c hc).1
  have hbrackets : pieces (· = '[') (token ++ first) = token :: indices := by
    simpa using Text.pieces_append (fun c hc ↦ by simpa using (hfree c hc).2) hfirst
  have hindex : index? token = some (.index i) :=
    index?_eq_some_iff.mpr ⟨i, zeros, rfl, hi, htoken.symm⟩
  rw [htoken]
  refine tail?_eq_some_iff_pieces.mpr
    ⟨'[' :: token ++ first, parts, token :: indices, .index i :: path', paths, hdots, ?_, ?_,
      hparts, rfl⟩
  · rw [List.cons_append, Text.pieces_cons_of_separator (by simp), hbrackets]
  · simp [List.mapM_cons, hindex, hindices]

theorem tail?_of_spells {s : List Char} {path : Path} (h : Spells s path) :
    tail? s = some path := by
  induction h with
  | nil => rfl
  | @cons segment s path zeros hwritable _ ih =>
      cases segment with
      | key name => exact tail?_key hwritable ih
      | index i => exact tail?_index hwritable ih

theorem tail?_eq_some_iff {s : List Char} {path : Path} : tail? s = some path ↔ Spells s path :=
  ⟨spells_of_tail?, tail?_of_spells⟩

/-- A text spells one path only. -/
theorem Spells.unique {s : List Char} {path path' : Path} (h : Spells s path)
    (h' : Spells s path') : path = path' :=
  Option.some.inj ((tail?_of_spells h).symm.trans (tail?_of_spells h'))

/-! ## Reading from the root -/

theorem ofText?_eq_tail?_of_bracket {text : String} {s : List Char}
    (htext : text.toList = '[' :: s) : ofText? text = tail? ('[' :: s) := by
  have hne : text ≠ "" := by
    rintro rfl
    cases htext
  obtain ⟨first, parts, hs⟩ := Text.exists_pieces (· = '.') s
  obtain ⟨index, indices, hfirst⟩ := Text.exists_pieces (· = '[') first
  have hfree : ∀ c ∈ ['['], decide (c = '.') = false := by simp
  have hdots : pieces (· = '.') ('[' :: s) = ('[' :: first) :: parts :=
    Text.pieces_append hfree hs
  have hbrackets : pieces (· = '[') ('[' :: first) = [] :: index :: indices := by
    rw [Text.pieces_cons_of_separator (by simp), hfirst]
  rw [ofText?, if_neg hne, htext, tail?, hdots]
  simp only [firstPart?, indices?, hbrackets]

theorem ofText?_eq_tail?_of_ne {text : String} (hne : text ≠ "")
    (hbracket : ∀ s, text.toList ≠ '[' :: s) : ofText? text = tail? ('.' :: text.toList) := by
  obtain ⟨first, parts, hs⟩ := Text.exists_pieces (· = '.') text.toList
  have hfirst : firstPart? first = part? first := by
    rw [firstPart?.eq_def]
    split
    · next index indices hpieces =>
        have hhead : text.toList.head? = some '[' := by
          rw [Text.eq_of_pieces hs, Text.eq_of_pieces hpieces]
          rfl
        obtain ⟨s, heq⟩ := List.head?_eq_some_iff.mp hhead
        exact absurd heq (hbracket s)
    · rfl
  rw [ofText?, if_neg hne, tail?, Text.pieces_cons_of_separator (by simp), hs]
  simp [hfirst, indices?, pieces, List.mapM_cons, Option.bind_assoc]

/-- The paths that texts denote, and how they may be written. -/
theorem ofText?_eq_some_iff {text : String} {path : Path} :
    ofText? text = some path ↔ Written text.toList path := by
  by_cases hne : text = ""
  · subst hne
    simp [ofText?, Written, eq_comm]
  by_cases hbracket : ∃ s, text.toList = '[' :: s
  · obtain ⟨s, hs⟩ := hbracket
    rw [ofText?_eq_tail?_of_bracket hs, tail?_eq_some_iff, hs]
    rfl
  · have hbracket : ∀ s, text.toList ≠ '[' :: s := not_exists.mp hbracket
    rw [ofText?_eq_tail?_of_ne hne hbracket, tail?_eq_some_iff, Written.eq_def]
    split
    · next heq => exact absurd (by simpa using heq) hne
    · next s heq => exact absurd heq (hbracket s)
    · rfl

end Path

end Dialogue
