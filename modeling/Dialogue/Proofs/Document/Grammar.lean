import Dialogue.Document
import Dialogue.Proofs.Keyed
import Dialogue.Proofs.Text.Enclosed

/-!
# The grammar of documents

The texts that write a document, independently of any reader. A text writes a *written tree*: a
document whose objects list every entry as it stands in the text, repeated keys included. What is
read is that tree with repeated keys merged, where a key keeps its first position and takes its
last value.

Readers bound the nesting of containers. `Within n` is the grammar up to nesting `n`, and
`within_iff` gives it layer by layer.
-/

namespace Dialogue.Document

open Text (Blanks Enclosed)

/-! ## Tokens -/

namespace Grammar

/-- The letters that name a control character after a backslash. -/
def controls : List (Char × Char) :=
  [('b', '\x08'), ('f', '\x0c'), ('n', '\n'), ('r', '\r'), ('t', '\t')]

/-- What stands between the quotes of a string, and the characters that it denotes. -/
inductive Chars : List Char → List Char → Prop
  | nil : Chars [] []
  | plain {c : Char} {s t : List Char} : c ≠ '"' → c ≠ '\\' → Chars s t → Chars (c :: s) (c :: t)
  | escaped {c : Char} {s t : List Char} :
      Chars s t → Chars ('\\' :: c :: s) ((controls.lookup c).getD c :: t)

def Digits (s : List Char) : Prop := ∀ c ∈ s, c.isDigit

/-- `(\.[0-9]*)?` -/
inductive Fraction : List Char → Prop
  | none : Fraction []
  | some {s : List Char} : Digits s → Fraction ('.' :: s)

/-- `([eE][+-]?[0-9]*)?` -/
inductive Exponent : List Char → Prop
  | none : Exponent []
  | some {e : Char} {sign s : List Char} : e ∈ ['e', 'E'] → sign ∈ [[], ['+'], ['-']] →
      Digits s → Exponent (e :: (sign ++ s))

/-- `-?[0-9]+(\.[0-9]*)?([eE][+-]?[0-9]*)?` -/
inductive Number : List Char → Prop
  | mk {minus whole fraction exponent : List Char} : minus ∈ [[], ['-']] → whole ≠ [] →
      Digits whole → Fraction fraction → Exponent exponent →
      Number (minus ++ (whole ++ (fraction ++ exponent)))

/-! ## Values -/

inductive Scalar : List Char → Document → Prop
  | string {s t : List Char} : Chars s t → Scalar ('"' :: (s ++ ['"'])) (.string (.ofList t))
  | number {s : List Char} : Number s → Scalar s (.number (.ofList s))
  | true : Scalar "true".toList (.bool true)
  | false : Scalar "false".toList (.bool false)
  | null : Scalar "null".toList .null

/-- A quoted key, a colon and a value. -/
inductive Entry (P : List Char → Document → Prop) : List Char → String × Document → Prop
  | mk {s t w w' v : List Char} {d : Document} : Chars s t → Blanks w → Blanks w' → P v d →
      Entry P ('"' :: (s ++ '"' :: (w ++ ':' :: (w' ++ v)))) (.ofList t, d)

/-- The values, with the trees that they write. -/
inductive Value : List Char → Document → Prop
  | scalar {s : List Char} {d : Document} : Scalar s d → Value s d
  | array {s : List Char} {items : List Document} :
      Enclosed ']' Value s items → Value ('[' :: s) (.array items)
  | object {s : List Char} {written : List (String × Document)} :
      Enclosed '}' (Entry Value) s written → Value ('{' :: s) (.object written)

end Grammar

/-! ## Nesting -/

mutual

/-- How deep containers nest in a tree, itself included. -/
def depth : Document → Nat
  | .object entries => entriesDepth entries + 1
  | .array items => itemsDepth items + 1
  | _ => 0

def entriesDepth : List (String × Document) → Nat
  | [] => 0
  | (_, value) :: entries => max value.depth (entriesDepth entries)

def itemsDepth : List Document → Nat
  | [] => 0
  | item :: items => max item.depth (itemsDepth items)

end

theorem itemsDepth_le_iff {items : List Document} {n : Nat} :
    itemsDepth items ≤ n ↔ ∀ item ∈ items, item.depth ≤ n := by
  induction items with
  | nil => simp [itemsDepth]
  | cons item items ih => rw [itemsDepth, Nat.max_le, ih, List.forall_mem_cons]

theorem entriesDepth_le_iff {entries : List (String × Document)} {n : Nat} :
    entriesDepth entries ≤ n ↔ ∀ e ∈ entries, e.2.depth ≤ n := by
  induction entries with
  | nil => simp [entriesDepth]
  | cons e entries ih => rw [entriesDepth, Nat.max_le, ih, List.forall_mem_cons]

/-! ## Repeated keys -/

/-- The value that a key has last. -/
def lastValue (written : List (String × Document)) (key : String) : Document :=
  (written.reverse.lookup key).getD .null

/-- The entries of an object that is written with the given ones: each key once, where it stands
first, with the value that it has last. -/
def merged (written : List (String × Document)) : List (String × Document) :=
  (written.map (·.1)).eraseDups.map fun key ↦ (key, lastValue written key)

mutual

/-- A written tree with the repeated keys of each object merged. -/
def resolved : Document → Document
  | .object written => .object (merged (resolvedEntries written))
  | .array items => .array (resolvedItems items)
  | .string text => .string text
  | .number text => .number text
  | .bool value => .bool value
  | .null => .null

def resolvedEntries : List (String × Document) → List (String × Document)
  | [] => []
  | (key, value) :: entries => (key, value.resolved) :: resolvedEntries entries

def resolvedItems : List Document → List Document
  | [] => []
  | item :: items => item.resolved :: resolvedItems items

end

theorem resolvedItems_eq_map (items : List Document) :
    resolvedItems items = items.map resolved := by
  induction items with
  | nil => rfl
  | cons item items ih => simp [resolvedItems, ih]

theorem resolvedEntries_eq_map (entries : List (String × Document)) :
    resolvedEntries entries = entries.map fun e ↦ (e.1, e.2.resolved) := by
  induction entries with
  | nil => rfl
  | cons e entries ih => simp [resolvedEntries, ih]

/-! ### Merging entry by entry

The reader merges while it reads, with `put`. -/

/-- Putting an entry among entries with distinct keys changes the value of one key. -/
theorem put_map (key : String) (value : Document) (valueOf : String → Document)
    {keys : List String} (hkeys : keys.Nodup) :
    put key value (keys.map fun k ↦ (k, valueOf k)) =
      (if key ∈ keys then keys else keys ++ [key]).map
        fun k ↦ (k, if k = key then value else valueOf k) := by
  induction keys with
  | nil => simp [put]
  | cons k keys ih =>
      obtain ⟨hk, hkeys⟩ := List.nodup_cons.mp hkeys
      rw [List.map_cons, put]
      by_cases hkey : k = key
      · subst hkey
        have hrest : keys.map (fun k' ↦ (k', if k' = k then value else valueOf k')) =
            keys.map fun k' ↦ (k', valueOf k') := by
          apply List.map_congr_left
          intro k' hk'
          rw [if_neg fun h : k' = k ↦ hk (h ▸ hk')]
        simp [hrest]
      · rw [if_neg hkey, ih hkeys]
        by_cases hmem : key ∈ keys <;> simp [hmem, hkey, Ne.symm hkey]

/-- Merging entry by entry leaves each key once, with its last value. -/
theorem collapse_eq_merged (written : List (String × Document)) :
    collapse written = merged written := by
  induction written using List.reverseRecOn with
  | nil => rfl
  | append_singleton written e ih =>
      rw [collapse, List.foldl_append, ← collapse, ih, List.foldl_cons, List.foldl_nil, merged,
        put_map _ _ _ (nodup_eraseDups _), merged, List.map_append, List.map_singleton,
        eraseDups_concat]
      simp only [List.mem_eraseDups]
      apply List.map_congr_left
      intro k _
      obtain ⟨key, value⟩ := e
      by_cases hk : k = key
      · simp [lastValue, hk]
      · simp [lastValue, List.lookup_cons, beq_false_of_ne hk, hk]

/-! ## Layers -/

namespace Grammar

/-- The text is a value in which containers nest at most `n` deep, and `d` is its tree with
repeated keys merged. -/
def Within (n : Nat) (s : List Char) (d : Document) : Prop :=
  ∃ written, Value s written ∧ written.depth ≤ n ∧ d = written.resolved

/-- The outermost layer of a value, around values that nest less deep. -/
inductive Layer : Nat → List Char → Document → Prop
  | scalar {n : Nat} {s : List Char} {d : Document} : Scalar s d → Layer n s d
  | array {n : Nat} {s : List Char} {items : List Document} :
      Enclosed ']' (Within n) s items → Layer (n + 1) ('[' :: s) (.array items)
  | object {n : Nat} {s : List Char} {written : List (String × Document)} :
      Enclosed '}' (Entry (Within n)) s written →
      Layer (n + 1) ('{' :: s) (.object (merged written))

theorem Scalar.depth_eq {s : List Char} {d : Document} (h : Scalar s d) : d.depth = 0 := by
  cases h <;> rfl

theorem Scalar.resolved_eq {s : List Char} {d : Document} (h : Scalar s d) : d.resolved = d := by
  cases h <;> rfl

theorem within_of_scalar (n : Nat) {s : List Char} {d : Document} (h : Scalar s d) :
    Within n s d :=
  ⟨d, .scalar h, by rw [h.depth_eq]; exact Nat.zero_le n, h.resolved_eq.symm⟩

theorem entry_within_iff {n : Nat} {s : List Char} {e : String × Document} :
    Entry (Within n) s e ↔
      ∃ e', Entry Value s e' ∧ e'.2.depth ≤ n ∧ e = (e'.1, e'.2.resolved) := by
  constructor
  · rintro ⟨hs, hw, hw', written, hv, hdepth, rfl⟩
    exact ⟨_, .mk hs hw hw' hv, hdepth, rfl⟩
  · rintro ⟨e', ⟨hs, hw, hw', hv⟩, hdepth, rfl⟩
    exact .mk hs hw hw' ⟨_, hv, hdepth, rfl⟩

theorem entry_within_eq (n : Nat) : Entry (Within n) = fun s e ↦
    ∃ e', Entry Value s e' ∧ e'.2.depth ≤ n ∧ e = (e'.1, e'.2.resolved) := by
  funext s e
  exact propext entry_within_iff

theorem within_iff {n : Nat} {s : List Char} {d : Document} : Within n s d ↔ Layer n s d := by
  constructor
  · rintro ⟨written, h, hdepth, rfl⟩
    cases h with
    | scalar h => rw [h.resolved_eq]; exact .scalar h
    | @array s items h =>
        obtain ⟨n, rfl⟩ : ∃ m, n = m + 1 := Nat.exists_eq_add_one.mpr (Nat.zero_lt_of_lt hdepth)
        rw [depth, Nat.add_le_add_iff_right, itemsDepth_le_iff] at hdepth
        rw [resolved, resolvedItems_eq_map]
        exact .array (Text.enclosed_exists_iff.mpr ⟨items, h, hdepth, rfl⟩)
    | @object s entries h =>
        obtain ⟨n, rfl⟩ : ∃ m, n = m + 1 := Nat.exists_eq_add_one.mpr (Nat.zero_lt_of_lt hdepth)
        rw [depth, Nat.add_le_add_iff_right, entriesDepth_le_iff] at hdepth
        rw [resolved, resolvedEntries_eq_map]
        refine .object ?_
        rw [entry_within_eq]
        exact Text.enclosed_exists_iff.mpr ⟨entries, h, hdepth, rfl⟩
  · intro h
    cases h with
    | scalar h => exact within_of_scalar n h
    | array h =>
        obtain ⟨items, hitems, hdepth, rfl⟩ := Text.enclosed_exists_iff.mp h
        refine ⟨.array items, .array hitems, ?_, by rw [resolved, resolvedItems_eq_map]⟩
        rw [depth, Nat.add_le_add_iff_right, itemsDepth_le_iff]
        exact hdepth
    | object h =>
        rw [entry_within_eq] at h
        obtain ⟨entries, hentries, hdepth, rfl⟩ := Text.enclosed_exists_iff.mp h
        refine ⟨.object entries, .object hentries, ?_, by rw [resolved, resolvedEntries_eq_map]⟩
        rw [depth, Nat.add_le_add_iff_right, entriesDepth_le_iff]
        exact hdepth

end Grammar

end Dialogue.Document
