import Dialogue.Proofs.Document.Path

/-!
# The text of a path

Of the texts that denote a path one has no needless zeros. It is written segment by segment, so
what is written for a longer path can be cut where a segment starts, and it is read back.
-/

namespace Dialogue.Path

/-! ## Writing from some place on -/

/-- The text of a path from some place on, without needless zeros. -/
def suffix (path : Path) : List Char := path.flatMap (Segment.write 0)

@[simp] theorem suffix_nil : suffix [] = [] := rfl

@[simp] theorem suffix_cons (segment : Segment) (path : Path) :
    suffix (segment :: path) = segment.write 0 ++ suffix path := rfl

theorem suffix_eq_nil_iff {path : Path} : path.suffix = [] ↔ path = [] := by
  cases path with
  | nil => exact iff_of_true rfl rfl
  | cons segment path => cases segment <;> simp [Segment.write]

@[simp] theorem suffix_append (path path' : Path) :
    suffix (path ++ path') = suffix path ++ suffix path' :=
  List.flatMap_append

def Writable (path : Path) : Prop := ∀ segment ∈ path, segment.Writable

theorem spells_suffix {path : Path} (h : path.Writable) : Spells path.suffix path := by
  induction path with
  | nil => exact .nil
  | cons segment path ih =>
      obtain ⟨hsegment, hpath⟩ := List.forall_mem_cons.mp h
      exact .cons 0 hsegment (ih hpath)

/-- Where the text of a path has a dot or an opening bracket, one of its segments starts. -/
theorem exists_append_of_suffix_eq {path : Path} (h : path.Writable) {s r : List Char} {c : Char}
    (hc : c = '.' ∨ c = '[') (heq : path.suffix = s ++ c :: r) :
    ∃ before after, path = before ++ after ∧ before.suffix = s ∧ after.suffix = c :: r := by
  induction path generalizing s with
  | nil => simp at heq
  | cons segment path ih =>
      obtain ⟨hsegment, hpath⟩ := List.forall_mem_cons.mp h
      obtain ⟨d, token, hwrite⟩ : ∃ d token, segment.write 0 = d :: token := by
        cases segment <;> exact ⟨_, _, rfl⟩
      cases s with
      | nil => exact ⟨[], segment :: path, rfl, rfl, heq⟩
      | cons d' s =>
          rw [suffix_cons, hwrite, List.cons_append, List.cons_append] at heq
          obtain ⟨rfl, hrest⟩ := List.cons.inj heq
          -- The character stands after the first segment, or where that ends, or inside it.
          rcases List.append_eq_append_iff.mp hrest with ⟨s', rfl, hpath'⟩ | ⟨token', rfl, hr⟩
          · obtain ⟨before, after, rfl, rfl, hafter⟩ := ih hpath hpath'
            exact ⟨segment :: before, after, rfl, by rw [suffix_cons, hwrite]; rfl, hafter⟩
          · cases token' with
            | nil => exact ⟨[segment], path, rfl, by simp [hwrite], by simpa using hr.symm⟩
            | cons c' token' =>
                obtain ⟨rfl, -⟩ := List.cons.inj hr
                have hfree := hsegment.of_mem_tail 0 (c := c) (by rw [hwrite]; simp)
                exact absurd hc (not_or.mpr hfree)

theorem exists_key_of_suffix_eq {path : Path} {r : List Char} (heq : path.suffix = '.' :: r) :
    ∃ name path', path = .key name :: path' ∧ r = name.toList ++ suffix path' := by
  cases path with
  | nil => cases heq
  | cons segment path =>
      cases segment with
      | key name => exact ⟨name, path, rfl, (List.cons.inj heq).2.symm⟩
      | index i => exact absurd (List.cons.inj heq).1 (by decide)

theorem exists_index_of_suffix_eq {path : Path} {i : Nat} {r : List Char}
    (heq : path.suffix = (Segment.index i).write 0 ++ r) :
    ∃ path', path = .index i :: path' ∧ suffix path' = r := by
  cases path with
  | nil => cases heq
  | cons segment path =>
      cases segment with
      | key name => exact absurd (List.cons.inj heq).1 (by decide)
      | index j =>
          have hrest : Nat.toDigits 10 j ++ ']' :: suffix path =
              Nat.toDigits 10 i ++ ']' :: r := by
            simpa [Segment.write] using heq
          have hdigits : Nat.toDigits 10 j = Nat.toDigits 10 i := by
            simpa [Text.Decimal.takeWhile_digits_append] using
              congrArg (List.takeWhile Char.isDigit) hrest
          obtain rfl : j = i := by
            simpa using congrArg (Nat.ofDigitChars 10 · 0) hdigits
          exact ⟨path, rfl, by simpa using hrest⟩

/-- The characters that a key in a path may have. -/
def inKey (c : Char) : Bool := c ≠ '.' && c ≠ '['

theorem takeWhile_inKey_suffix (path : Path) : path.suffix.takeWhile inKey = [] := by
  cases path with
  | nil => rfl
  | cons segment path => cases segment <;> rfl

/-- The first key of a path is what its text has before the first dot or bracket. -/
theorem takeWhile_inKey {name : String} (h : (Segment.key name).Writable) (path : Path) :
    (name.toList ++ path.suffix).takeWhile inKey = name.toList := by
  rw [List.takeWhile_append_of_pos (fun c hc ↦ by simpa [inKey] using h c hc),
    takeWhile_inKey_suffix, List.append_nil]

/-- No key of the path has a dot or an opening bracket in it. -/
def Unmarked (path : Path) : Prop := ∀ name, .key name ∈ path → (Segment.key name).Writable

theorem unmarked_cons_iff {segment : Segment} {path : Path} : Unmarked (segment :: path) ↔
    (∀ name, segment = .key name → segment.Writable) ∧ path.Unmarked := by
  constructor
  · intro h
    refine ⟨?_, fun name hname ↦ h name (List.mem_cons_of_mem _ hname)⟩
    rintro name rfl
    exact h name List.mem_cons_self
  · rintro ⟨hsegment, hpath⟩ name hname
    rcases List.mem_cons.mp hname with rfl | hname
    · exact hsegment name rfl
    · exact hpath name hname

/-- However large the indices are, no two such paths have one text. -/
theorem Unmarked.eq_of_suffix_eq {path path' : Path} (h : path.Unmarked) (h' : path'.Unmarked)
    (heq : path.suffix = path'.suffix) : path = path' := by
  induction path generalizing path' with
  | nil => exact (suffix_eq_nil_iff.mp heq.symm).symm
  | cons segment path ih =>
      obtain ⟨hsegment, hpath⟩ := unmarked_cons_iff.mp h
      cases segment with
      | key name =>
          have hdot : path'.suffix = '.' :: (name.toList ++ suffix path) := heq.symm
          obtain ⟨name', path', rfl, hrest⟩ := exists_key_of_suffix_eq hdot
          obtain ⟨hsegment', hpath'⟩ := unmarked_cons_iff.mp h'
          have hname : name.toList = name'.toList := by
            rw [← takeWhile_inKey (hsegment name rfl) path, hrest,
              takeWhile_inKey (hsegment' name' rfl) path']
          obtain rfl := String.toList_injective hname
          rw [ih hpath hpath' (List.append_cancel_left hrest)]
      | index i =>
          have hbracket : path'.suffix = (Segment.index i).write 0 ++ suffix path := heq.symm
          obtain ⟨path', rfl, hrest⟩ := exists_index_of_suffix_eq hbracket
          rw [ih hpath (unmarked_cons_iff.mp h').2 hrest.symm]

/-- No number in brackets starts with a needless zero. -/
def Shortest (s : List Char) : Prop :=
  ∀ before digits after, s = before ++ '[' :: '0' :: (digits ++ ']' :: after) →
    (∀ c ∈ digits, c.isDigit) → digits = []

theorem Shortest.of_append {s t : List Char} (h : Shortest (s ++ t)) : Shortest t := by
  intro before digits after ht
  exact h (s ++ before) digits after (by rw [ht, List.append_assoc])

theorem Shortest.dot {s : List Char} (h : Shortest s) : Shortest ('.' :: s) := by
  intro before digits after hs
  cases before with
  | nil => exact absurd (List.cons.inj hs).1 (by decide)
  | cons c before => exact h before digits after (List.cons.inj hs).2

theorem Spells.eq_suffix {s : List Char} {path : Path} (h : Spells s path) (hs : Shortest s) :
    s = path.suffix := by
  induction h with
  | nil => rfl
  | @cons segment s path zeros hwritable _ ih =>
      rw [suffix_cons, ← ih hs.of_append]
      cases segment with
      | key name => rfl
      | index i =>
          cases zeros with
          | zero => rfl
          | succ zeros =>
              have hnil := hs [] (List.replicate zeros '0' ++ Nat.toDigits 10 i) s
                (by simp [Segment.write, List.replicate_succ])
                fun c hc ↦ Text.Decimal.isDigit_of_mem_padded hc
              exact absurd (List.append_eq_nil_iff.mp hnil).2 Nat.toDigits_ne_nil

/-! ## Writing from the root

In an object without an empty key every path but the root's has a key in front, and its text is the
one from some place on without the first dot. -/

/-- The text of a path with a dot before its first segment. -/
def dotted (text : String) : List Char := if text = "" then [] else '.' :: text.toList

theorem dotted_of_ne {text : String} (h : text ≠ "") : dotted text = '.' :: text.toList :=
  if_neg h

theorem dotted_eq_cons_iff {text : String} {s : List Char} :
    dotted text = '.' :: s ↔ text ≠ "" ∧ text.toList = s := by
  by_cases h : text = ""
  · simp [dotted, h]
  · simp [dotted, h]

theorem dotted_injective : Function.Injective dotted := by
  intro text text' h
  by_cases hempty : text' = ""
  · by_cases hempty' : text = ""
    · rw [hempty, hempty']
    · simp [dotted, hempty, hempty'] at h
  · rw [dotted_of_ne hempty] at h
    exact String.toList_injective (dotted_eq_cons_iff.mp h).2

/-- The path is the root's or starts with a key that is not empty. -/
def FromObject (path : Path) : Prop :=
  ∀ segment ∈ path.head?, ∃ name, segment = .key name ∧ name ≠ ""

theorem FromObject.exists_key {segment : Segment} {path : Path}
    (h : FromObject (segment :: path)) : ∃ name, segment = .key name ∧ name ≠ "" :=
  h segment rfl

/-- The text of such a path is not empty and does not start with a bracket. -/
theorem FromObject.toList_of_dotted {text : String} {path : Path} (h : path.FromObject)
    (hwritable : path.Writable) (htext : '.' :: text.toList = path.suffix) :
    text ≠ "" ∧ ∀ s, text.toList ≠ '[' :: s := by
  obtain ⟨name, path, rfl, hrest⟩ := exists_key_of_suffix_eq htext.symm
  obtain ⟨_, heq, hname⟩ := h.exists_key
  cases heq
  obtain ⟨c, name', hcons⟩ : ∃ c name', name.toList = c :: name' :=
    List.exists_cons_of_ne_nil (by simpa using hname)
  have hc : c ≠ '[' :=
    (hwritable _ List.mem_cons_self c (by rw [hcons]; exact List.mem_cons_self)).2
  rw [hcons, List.cons_append] at hrest
  constructor
  · rintro rfl
    cases hrest
  · intro s hs
    exact hc (List.cons.inj (hrest.symm.trans hs)).1

theorem FromObject.exists_dotted {path : Path} (h : path.FromObject) :
    ∃ text, dotted text = path.suffix := by
  cases path with
  | nil => exact ⟨"", rfl⟩
  | cons segment path =>
      obtain ⟨name, rfl, hname⟩ := h.exists_key
      refine ⟨.ofList (name.toList ++ suffix path),
        dotted_eq_cons_iff.mpr ⟨?_, String.toList_ofList⟩⟩
      intro hempty
      have hnil := congrArg String.toList hempty
      rw [String.toList_ofList] at hnil
      exact hname (String.toList_injective (List.append_eq_nil_iff.mp hnil).1)

theorem dotted_eq_suffix_of_ofText? {text : String} {path : Path} (hpath : path.FromObject)
    (hshort : Shortest text.toList) (h : ofText? text = some path) : dotted text = path.suffix := by
  by_cases hne : text = ""
  · subst hne
    obtain rfl : [] = path := Option.some.inj h
    rfl
  rw [dotted_of_ne hne]
  by_cases hbracket : ∃ s, text.toList = '[' :: s
  · obtain ⟨s, hs⟩ := hbracket
    rw [ofText?_eq_tail?_of_bracket hs, tail?_eq_some_iff] at h
    obtain ⟨i, path, rfl⟩ := h.exists_index
    obtain ⟨name, heq, -⟩ := hpath.exists_key
    cases heq
  · rw [ofText?_eq_tail?_of_ne hne (not_exists.mp hbracket), tail?_eq_some_iff] at h
    exact h.eq_suffix hshort.dot

theorem ofText?_of_dotted {text : String} {path : Path} (hpath : path.FromObject)
    (hwritable : path.Writable) (h : dotted text = path.suffix) : ofText? text = some path := by
  by_cases hne : text = ""
  · subst hne
    cases path with
    | nil => rfl
    | cons segment path => cases segment <;> cases h
  · rw [dotted_of_ne hne] at h
    rw [ofText?_eq_tail?_of_ne hne (hpath.toList_of_dotted hwritable h).2, h]
    exact tail?_of_spells (spells_suffix hwritable)

/-- The text of a path that starts with a key. -/
structure Names (text : String) (path : Path) : Prop where
  fromObject : path.FromObject
  writable : path.Writable
  toList_eq : '.' :: text.toList = path.suffix

theorem Names.ofText? {text : String} {path : Path} (h : Names text path) :
    ofText? text = some path := by
  obtain ⟨hne, -⟩ := h.fromObject.toList_of_dotted h.writable h.toList_eq
  apply ofText?_of_dotted h.fromObject h.writable
  rw [dotted_of_ne hne, h.toList_eq]

theorem names_key {name : String} (hne : name ≠ "") (hname : (Segment.key name).Writable) :
    Names name [.key name] where
  fromObject := fun _ hsegment ↦ ⟨name, (Option.some.inj hsegment).symm, hne⟩
  writable := List.forall_mem_singleton.mpr hname
  toList_eq := by simp [Segment.write]

theorem Names.append {text text' : String} {path : Path} {segment : Segment} (h : Names text path)
    (hsegment : segment.Writable) (htext' : text'.toList = segment.write 0) :
    Names (text ++ text') (path ++ [segment]) where
  fromObject := by
    obtain ⟨name, path', rfl, -⟩ := exists_key_of_suffix_eq h.toList_eq.symm
    exact h.fromObject
  writable := List.forall_mem_append.mpr ⟨h.writable, List.forall_mem_singleton.mpr hsegment⟩
  toList_eq := by
    rw [String.toList_append, htext', ← List.cons_append, h.toList_eq, suffix_append]
    simp

theorem Names.field {text name : String} {path : Path} (h : Names text path)
    (hname : (Segment.key name).Writable) : Names (text ++ "." ++ name) (path ++ [.key name]) := by
  rw [String.append_assoc]
  exact h.append hname (by rw [String.toList_append]; rfl)

theorem Names.item {text : String} {path : Path} (h : Names text path) {i : Nat}
    (hi : (Segment.index i).Writable) :
    Names (text ++ "[" ++ i.repr ++ "]") (path ++ [.index i]) := by
  rw [String.append_assoc, String.append_assoc]
  exact h.append hi (by simp [Segment.write, Nat.toList_repr])

end Dialogue.Path
