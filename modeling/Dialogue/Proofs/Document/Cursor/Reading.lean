import Dialogue.Proofs.Document.Cursor.Progress
import Dialogue.Proofs.Document.Writing

/-!
# Documents at the cursor

The cursor reads the document that a text starts with, or finds the same fault as the reader of
characters does. On the way it stays inside the text and between its characters, whatever the text
is.

The induction is on the room that is left for containers. Inside a container it is on the characters
that are left, which are fewer after each element. The slots of an object that is being read are
kept in step with the keys seen so far.
-/

namespace Dialogue.Document.Cursor

open Text (Reads skipBlanks)
open Reader (maxDepth)

variable {text : String} {r : List Char} {s : State}

/-- A run that, wherever the cursor stands, reads what a reader of characters does. -/
def ReadsAs {α : Type} (text : String) (m : Run α) (reader : Text.Reader Reader.Fault α) : Prop :=
  ∀ ⦃r s⦄, s.Before text r → Gives text Eq m s (reader r)

theorem gives_bind_peekNext {α β : Type} {R : β → α → Prop} {f : Option UInt8 → Run β}
    {answer : Except Reader.Fault (α × List Char)} (hs : s.Before text r)
    (hf : ∀ s', s'.Before text (skipBlanks r) →
      Gives text R (f (firstByte (skipBlanks r))) s' answer) :
    Gives text R (do skipWhile text isBlankByte; f (← peek text)) s answer := by
  refine (gives_skipWhile tells_isBlank hs).bind fun _ s' _ hs' ↦ ?_
  rw [gives_bind_peek hs']
  exact hf s' hs'

theorem Gives.as {α α' β β' : Type} {R : β → α → Prop} {R' : β' → α' → Prop} {m : Run β}
    {reader : Text.Reader Reader.Fault α} {f : α → α'} {g : β → β'}
    (h : Gives text R m s (reader r)) (hfg : ∀ y x, R y x → R' (g y) (f x)) :
    Gives text R' (do return g (← m)) s (reader.as f r) := by
  refine h.bind_cases (fun e he ↦ Text.Reader.as_eq_error_iff.mpr he)
    fun x r' y s' hread hy hs' ↦ ?_
  rw [Text.Reader.as_eq_ok_iff.mpr ⟨x, hread, rfl⟩]
  exact gives_pure hs' (hfg y x hy)

/-! ## Lists in brackets -/

theorem elements_eq {σ : Type} (text : String) (element : σ → Run σ) (close : Char) (x : σ) :
    elements text element close x = (do
      let x ← element x
      skipWhile text isBlankByte
      let b ← peek text
      if b = some (byte ',') then
        move 1
        elements text element close x
      else if b = some (byte close) then
        move 1
        return x
      else fail (.expectedSeparator close) (← position)) := by
  conv_lhs => rw [elements, loop_eq]
  simp only [bind_assoc]
  refine bind_congr fun x ↦ bind_congr fun _ ↦ bind_congr fun b ↦ ?_
  split
  · simp only [bind_assoc, pure_bind]
    rfl
  split
  · simp only [bind_assoc, pure_bind]
  · simp only [bind_assoc, fail_bind]

section Elements

variable {σ α : Type} {R : σ → List α → Prop} {element : σ → Run σ}
  {reader : Text.Reader Reader.Fault α} {P : List Char → α → Prop} {close : Char}

/-- What `element` adds to stays in step, by `R`, with the list of what `reader` has read. -/
def Adds (text : String) (R : σ → List α → Prop) (element : σ → Run σ)
    (reader : Text.Reader Reader.Fault α) : Prop :=
  ∀ ⦃x xs r s⦄, R x xs → s.Before text r →
    Gives text (fun y a ↦ R y (xs ++ [a])) (element x) s (reader r)

theorem gives_elements (h : Reads reader P) (hadds : Adds text R element reader)
    (hascii : close.toNat < 128) (hclose : close ≠ ',') {seen : List α} {bound : List Char}
    (hb : r.length ≤ bound.length + 1) {x : σ} (hx : R x seen.reverse) (hs : s.Before text r) :
    Gives text R (elements text element close x) s
      (Text.Reader.separated reader close (.mk (.expectedSeparator close)) seen bound r) := by
  -- A round takes an element and a comma, so the next one starts with fewer characters left.
  induction hn : r.length using Nat.strongRecOn generalizing r s seen bound x with
  | ind n ih =>
    subst hn
    rw [elements_eq]
    refine (hadds hx hs).bind_cases (fun e he ↦ Text.Reader.separated_broken he seen bound)
      fun a r₁ y s₁ he hy hs₁ ↦ gives_bind_peekNext hs₁ fun s₂ hs₂ ↦ ?_
    refine gives_ite_byte (by decide) (fun r₂ hr ↦ ?later) fun hcomma ↦
      gives_ite_byte hascii (fun r₂ hr ↦ ?closed) fun hother ↦ ?stuck
    case later =>
      obtain ⟨bound', hb', heq⟩ := Text.Reader.separated_later
        (.mk (.expectedSeparator close)) h hclose he hr hb seen
      have hlength : r₂.length + 2 ≤ r.length := Text.Reader.Reads.length_lt h he hr
      rw [hr] at hs₂
      rw [gives_bind_move, heq]
      exact ih _ (by omega) hb' (by simpa using hy) (hs₂.move_one (by decide)) rfl
    case closed =>
      rw [hr] at hs₂
      rw [gives_bind_move, Text.Reader.separated_closed he hr]
      exact gives_pure (hs₂.move_one hascii) hy
    case stuck =>
      have hstuck : ∀ c ∈ (skipBlanks r₁).head?, c ≠ close ∧ c ≠ ',' := fun c hc ↦
        ⟨Text.head?_ne_of_forall_ne_cons hother c hc, Text.head?_ne_of_forall_ne_cons hcomma c hc⟩
      rw [Text.Reader.separated_stuck he hstuck]
      exact gives_fail_here hs₂

theorem gives_enclosed (h : Reads reader P) (hadds : Adds text R element reader)
    (hascii : close.toNat < 128) (hclose : close ≠ ',') {x : σ} (hx : R x []) {c : Char}
    (hc : c.toNat < 128) (hs : s.Before text (c :: r)) :
    Gives text R (enclosed text element close x) s
      (Text.Reader.enclosed reader close (.mk (.expectedSeparator close)) r) := by
  rw [enclosed, gives_bind_move]
  refine gives_bind_peekNext (hs.move_one hc) fun s' hs' ↦
    gives_ite_byte hascii (fun r' hr ↦ ?_) fun hfirst ↦ ?_
  · rw [hr] at hs'
    rw [gives_bind_move, Text.Reader.enclosed_empty hr]
    exact gives_pure (hs'.move_one hascii) hx
  · obtain ⟨bound, hb, heq⟩ :=
      Text.Reader.enclosed_elements reader (.mk (.expectedSeparator close)) hfirst
    rw [heq]
    exact gives_elements h hadds hascii hclose hb hx hs'

end Elements

theorem adds_item {read : Run Document} {reader : Text.Reader Reader.Fault Document}
    (h : ReadsAs text read reader) :
    Adds text Eq (fun items ↦ do return items ++ [← read]) reader := by
  rintro items _ r s rfl hs
  refine (h hs).bind_cases (fun e he ↦ he) fun d r' y s' hd hy hs' ↦ ?_
  rw [hd]
  exact gives_pure hs' (hy ▸ rfl)

/-! ## Entries -/

theorem readsAs_key : ReadsAs text (key text) Reader.key := by
  intro r s hs
  rw [key, Reader.key.eq_def]
  refine gives_bind_peekNext hs fun s₁ hs₁ ↦
    gives_ite_byte (by decide) (fun r₁ hr₁ ↦ ?_) fun hquote ↦ ?_
  · rw [hr₁] at hs₁ ⊢
    refine (gives_string hs₁).bind_cases (fun e he ↦ by simp only [he])
      fun name r₂ y s₂ hread hy hs₂ ↦ gives_bind_peekNext hs₂ fun s₃ hs₃ ↦
        gives_ite_byte (by decide) (fun r₃ hr₃ ↦ ?_) fun hcolon ↦ ?_
    · rw [hr₃] at hs₃
      simp only [hread, hr₃, gives_bind_move]
      exact gives_pure (hs₃.move_one (by decide)) hy
    · simp only [hread]
      exact gives_fail_here hs₃
  · split
    · next hr₁ => exact absurd hr₁ (hquote _)
    · exact gives_fail_here hs₁

/-- The entries are those of what is written, each key with the slot where it stands. -/
structure Entries.Holds (entries : Entries) (written : List (String × Document)) : Prop where
  list_eq : entries.list = collapse written
  get?_eq_some_iff {name : String} {i : Nat} :
    entries.slots.get? name = some i ↔ (written.map (·.1)).eraseDups[i]? = some name

theorem holds_empty : Entries.Holds {} [] where
  list_eq := rfl
  get?_eq_some_iff := by simp

theorem keys_collapse (written : List (String × Document)) :
    (collapse written).map (·.1) = (written.map (·.1)).eraseDups := by
  rw [collapse_eq_merged, merged, List.map_map]
  exact List.map_id _

theorem collapse_concat (written : List (String × Document)) (e : String × Document) :
    collapse (written ++ [e]) = put e.1 e.2 (collapse written) := by
  rw [collapse, List.foldl_append]
  rfl

/-- Where a key stands only once, its value is replaced there. -/
theorem put_eq_modify {name : String} (value : Document) {entries : List (String × Document)}
    {i : Nat} (hi : (entries.map (·.1))[i]? = some name)
    (honce : ∀ j, (entries.map (·.1))[j]? = some name → j = i) :
    put name value entries = entries.modify i fun e ↦ (e.1, value) := by
  induction entries generalizing i with
  | nil => cases hi
  | cons e entries ih =>
      by_cases he : e.1 = name
      · obtain rfl : 0 = i := honce 0 (congrArg some he)
        rw [put, if_pos he, ← he]
        rfl
      · cases i with
        | zero => exact absurd (Option.some.inj hi) he
        | succ i =>
            rw [put, if_neg he, List.modify_succ_cons, ih hi]
            exact fun j hj ↦ Nat.succ.inj (honce (j + 1) hj)

theorem getElem?_concat_eq_some_iff {α : Type} {xs : List α} {x y : α} {i : Nat} :
    (xs ++ [x])[i]? = some y ↔ xs[i]? = some y ∨ xs.length = i ∧ x = y := by
  rcases Nat.lt_trichotomy i xs.length with hi | rfl | hi
  · rw [List.getElem?_append_left hi]
    simp [Nat.ne_of_gt hi]
  · simp
  · have hbeyond : (xs ++ [x]).length ≤ i := by
      rw [List.length_append]
      exact hi
    rw [List.getElem?_eq_none hbeyond, List.getElem?_eq_none hi.le]
    simp [Nat.ne_of_lt hi]

section Put

variable {entries : Entries} {written : List (String × Document)} {name : String}

theorem Entries.Holds.keys_eq (h : entries.Holds written) :
    entries.list.map (·.1) = (written.map (·.1)).eraseDups := by
  rw [h.list_eq, keys_collapse]

/-- A key that has a slot keeps it. -/
theorem Entries.Holds.replace (h : entries.Holds written) {i : Nat}
    (hslot : entries.slots.get? name = some i) (value : Document) :
    i < entries.list.length ∧ Entries.Holds
      { entries with list := entries.list.modify i fun e ↦ (e.1, value) }
      (written ++ [(name, value)]) := by
  have hi : (entries.list.map (·.1))[i]? = some name := h.keys_eq ▸ h.get?_eq_some_iff.mp hslot
  have honce : ∀ j, (entries.list.map (·.1))[j]? = some name → j = i := by
    intro j hj
    have hj' := h.get?_eq_some_iff.mpr (h.keys_eq ▸ hj)
    exact Option.some.inj (hj'.symm.trans hslot)
  refine ⟨?_, ?_, fun {k j} ↦ ?_⟩
  · rw [← List.length_map (·.1)]
    exact (List.getElem?_eq_some_iff.mp hi).1
  · rw [collapse_concat, ← h.list_eq, put_eq_modify value hi honce]
  · have hmem : name ∈ written.map (·.1) := by
      rw [← List.mem_eraseDups, ← h.keys_eq]
      exact List.mem_of_getElem? hi
    rw [List.map_append, List.map_singleton, eraseDups_concat, if_pos hmem]
    exact h.get?_eq_some_iff

/-- A new key has its slot behind the others. -/
theorem Entries.Holds.add (h : entries.Holds written) (hslot : entries.slots.get? name = none)
    (value : Document) :
    Entries.Holds ⟨entries.list ++ [(name, value)], entries.slots.insert name entries.list.length⟩
      (written ++ [(name, value)]) := by
  have hnew (i : Nat) : (entries.list.map (·.1))[i]? ≠ some name := fun hi ↦ by
    rw [h.get?_eq_some_iff.mpr (h.keys_eq ▸ hi)] at hslot
    cases hslot
  have hmem : name ∉ entries.list.map (·.1) := fun hmem ↦
    (List.getElem?_of_mem hmem).elim hnew
  refine ⟨?_, fun {k i} ↦ ?_⟩
  · rw [collapse_concat, ← h.list_eq, put_of_not_mem value hmem]
  · have hlength : entries.list.length = (entries.list.map (·.1)).length := (List.length_map _).symm
    rw [Table.get?_insert, List.map_append, List.map_singleton, eraseDups_concat,
      if_neg (mt List.mem_eraseDups.mpr (h.keys_eq ▸ hmem)), ← h.keys_eq,
      getElem?_concat_eq_some_iff, hlength]
    split
    · next hk =>
        subst hk
        simp only [Option.some.injEq, hnew, false_or, and_true]
    · next hk =>
        rw [h.get?_eq_some_iff, h.keys_eq]
        simp only [hk, and_false, or_false]

end Put

theorem gives_put {entries : Entries} {written : List (String × Document)}
    (h : entries.Holds written) (name : String) (value : Document) (hs : s.Before text r) :
    Gives text (fun y e ↦ y.Holds (written ++ [e])) (entries.put name value) s
      (.ok ((name, value), r)) := by
  rw [Entries.put]
  cases hslot : entries.slots.get? name with
  | some i =>
      obtain ⟨hlt, hreplace⟩ := h.replace hslot value
      dsimp only
      rw [gives_bind_note, if_pos hlt]
      exact gives_pure (hs.note hlt) hreplace
  | none => exact gives_pure hs (h.add hslot value)

theorem adds_entry {read : Run Document} {reader : Text.Reader Reader.Fault Document}
    (h : ReadsAs text read reader) :
    Adds text Entries.Holds (fun entries ↦ do
      let name ← key text
      entries.put name (← read)) (Reader.entry reader) := by
  intro entries written r s hentries hs
  rw [Reader.entry]
  refine (readsAs_key hs).bind_cases (fun e he ↦ by rw [he]) fun name r₁ y s₁ hkey hy hs₁ ↦ ?_
  rw [hkey]
  refine (h hs₁).bind_cases (fun e he ↦ ?_) fun d r₂ z s₂ hread hz hs₂ ↦ ?_
  · dsimp only
    rw [Text.Reader.as, he]
  · dsimp only
    rw [Text.Reader.as, hread]
    subst hy hz
    exact gives_put hentries _ _ hs₂

/-! ## Values -/

theorem exists_append_of_reads {α : Type} {reader : Text.Reader Reader.Fault α}
    {P : List Char → α → Prop} (h : Reads reader P) {x : α} {r' : List Char}
    (hread : reader r = .ok (x, r')) : ∃ q, r = q ++ r' ∧ q ≠ [] := by
  obtain ⟨w, o, rfl, -, ho⟩ := h.sound hread
  obtain ⟨c, o, rfl, -⟩ := h.starts ho
  exact ⟨w ++ c :: o, by simp, by simp⟩

theorem gives_scalar (hs : s.Before text r) :
    Gives text Eq
      (if firstByte r = some (byte '"') then do return .string (← string text)
      else if (firstByte r).any fun b ↦ b = byte '-' || isDigitByte b then number text
      else word text) s (Reader.scalar r) := by
  refine gives_ite_byte (by decide) (fun t ht ↦ ?_) fun hquote ↦ ?_
  · subst ht
    exact (gives_string hs).as fun _ _ hy ↦ congrArg Document.string hy
  · have htells := (tells_eq (d := '-') (by decide)).or tells_isDigit
    rw [htells.any_firstByte]
    split
    · next hnumber =>
        rw [scalar_eq_number hnumber]
        exact gives_number hs
    · next hnumber =>
        refine gives_word hs (fun h ↦ ?_) hnumber
        obtain ⟨t, ht⟩ := List.head?_eq_some_iff.mp h
        exact hquote t ht

/-! ### Containers -/

section Containers

variable {depth n : Nat} {c : Char} {body : Run Document}

/-- Past the last level a container is refused where it starts. -/
theorem gives_tooDeep (hs : s.Before text r) :
    Gives text Eq (do
      note (.called (maxDepth + 1))
      advancing do
        if maxDepth < maxDepth + 1 then fail .tooDeep (← position) else body) s
      (.error ⟨.tooDeep, r⟩) := by
  have hcalled : Event.InOrder text (.called (maxDepth + 1)) := Nat.le_refl 257
  rw [gives_bind_note, if_pos (Nat.lt_succ_self _)]
  exact (gives_fail_here (hs.note hcalled)).advancing (hs.note hcalled) nofun

theorem gives_container (hdepth : depth ≤ maxDepth) {reader : Text.Reader Reader.Fault Document}
    (hbody : ∀ s, s.Before text (c :: r) → Gives text Eq body s (reader r))
    (hrest : ∀ d r', reader r = .ok (d, r') → ∃ q, r = q ++ r') (hs : s.Before text (c :: r)) :
    Gives text Eq (do
      note (.called depth)
      advancing do
        if maxDepth < depth then fail .tooDeep (← position) else body) s (reader r) := by
  have hcalled : Event.InOrder text (.called depth) := Nat.le_succ_of_le hdepth
  rw [gives_bind_note, if_neg (Nat.not_lt.mpr hdepth)]
  refine (hbody _ (hs.note hcalled)).advancing (hs.note hcalled) fun d r' hread ↦ ?_
  obtain ⟨q, rfl⟩ := hrest d r' hread
  exact ⟨c :: q, rfl, List.cons_ne_nil _ _⟩

theorem gives_object (hdepth : depth ≤ maxDepth)
    (h : ReadsAs text (value text depth) (Reader.value n)) (hs : s.Before text ('{' :: r)) :
    Gives text Eq (object text depth) s (Reader.object (Reader.value n) r) := by
  have hvalue := Reader.reads_value n
  rw [object]
  refine gives_container hdepth (fun s' hs' ↦ ?_) (fun d r' hread ↦ ?_) hs
  · rw [Reader.object]
    refine Gives.as (R := Entries.Holds) ?_ fun _ _ hy ↦ congrArg Document.object hy.list_eq
    exact gives_enclosed (Reader.reads_entry hvalue) (adds_entry h) (by decide) (by decide)
      holds_empty (by decide) hs'
  · obtain ⟨q, -, hq, -⟩ := (Reader.object_eq_ok_iff hvalue).mp hread
    exact ⟨q, hq⟩

theorem gives_array (hdepth : depth ≤ maxDepth)
    (h : ReadsAs text (value text depth) (Reader.value n)) (hs : s.Before text ('[' :: r)) :
    Gives text Eq (array text depth) s (Reader.array (Reader.value n) r) := by
  have hvalue := Reader.reads_value n
  rw [array]
  refine gives_container hdepth (fun s' hs' ↦ ?_) (fun d r' hread ↦ ?_) hs
  · rw [Reader.array]
    refine Gives.as (R := Eq) ?_ fun _ _ hy ↦ congrArg Document.array hy
    exact gives_enclosed hvalue (adds_item h) (by decide) (by decide) rfl (by decide) hs'
  · obtain ⟨q, -, hq, -⟩ := (Reader.array_eq_ok_iff hvalue).mp hread
    exact ⟨q, hq⟩

/-- A value is read as it should be if the containers that it may start with are. -/
theorem readsAs_value_of_containers (hdepth : depth ≤ maxDepth)
    (hobject : ∀ ⦃r t s⦄, skipBlanks r = '{' :: t → s.Before text ('{' :: t) →
      Gives text Eq (object text (depth + 1)) s (Reader.value n r))
    (harray : ∀ ⦃r t s⦄, skipBlanks r = '[' :: t → s.Before text ('[' :: t) →
      Gives text Eq (array text (depth + 1)) s (Reader.value n r)) :
    ReadsAs text (value text depth) (Reader.value n) := by
  intro r s hs
  have hcalled : Event.InOrder text (.called depth) := Nat.le_succ_of_le hdepth
  rw [value, gives_bind_note]
  refine Gives.advancing ?_ (hs.note hcalled) fun d r' hread ↦
    exists_append_of_reads (Reader.reads_value n) hread
  refine gives_bind_peekNext (hs.note hcalled) fun s' hs' ↦
    gives_ite_byte (by decide) (fun t ht ↦ hobject ht (ht ▸ hs')) fun hbrace ↦
      gives_ite_byte (by decide) (fun t ht ↦ harray ht (ht ▸ hs')) fun hbracket ↦ ?_
  rw [Reader.value_eq_scalar n rfl hbrace hbracket]
  exact gives_scalar hs'

end Containers

/-- The depth at which a value is read and the room that it has make up the greatest depth. -/
theorem readsAs_value {depth n : Nat} (h : depth + n = maxDepth) :
    ReadsAs text (value text depth) (Reader.value n) := by
  induction n generalizing depth with
  | zero =>
      obtain rfl : depth = maxDepth := h
      refine readsAs_value_of_containers (Nat.le_refl _) (fun r t s ht hs ↦ ?_) fun r t s ht hs ↦ ?_
      · rw [Reader.value_eq_tooDeep (.inl rfl) ht, object]
        exact gives_tooDeep hs
      · rw [Reader.value_eq_tooDeep (.inr rfl) ht, array]
        exact gives_tooDeep hs
  | succ n ih =>
      have hdepth : depth + 1 ≤ maxDepth := by omega
      have hdeeper : ReadsAs text (value text (depth + 1)) (Reader.value n) := ih (by omega)
      refine readsAs_value_of_containers (by omega) (fun r t s ht hs ↦ ?_) fun r t s ht hs ↦ ?_
      · rw [Reader.value_eq_object n ht]
        exact gives_object hdepth hdeeper hs
      · rw [Reader.value_eq_array n ht]
        exact gives_array hdepth hdeeper hs

/-! ## Documents -/

theorem readsAs_parse : ReadsAs text (parse text) Reader.root := by
  intro r s hs
  rw [parse, Reader.root.eq_def]
  refine gives_bind_peekNext hs fun s' hs' ↦
    gives_ite_byte (by decide) (fun t ht ↦ ?_) fun hbrace ↦ ?_
  · rw [ht] at hs' ⊢
    exact gives_object (Nat.zero_le _) (readsAs_value (Nat.zero_add _)) hs'
  · split
    · next ht => exact absurd ht (hbrace _)
    · exact gives_fail_here hs'

/-- Reading with a cursor ends on every text, with the document or the fault that is found among the
characters, and so without a panic. On the record of the run the cursor never leaves the text or
stands inside a character, whatever is taken or replaced is there, no reader is called for a depth
of more than 257, and every reader that has read something has moved the cursor forward.

Of the readers themselves that is true without the record and from every state: whichever of them
has a result has moved the cursor forward, a container that stands deeper than 256 levels is refused
where it starts, and what a value holds nests no deeper than the levels that are left. -/
theorem parse_in_order (text : String) :
    (∃ final : State, (parse text).run.run (.start 0) =
        .some ((Document.parse text).mapError .malformed, final) ∧
      .stood final.pos ∈ final.record ∧ ∀ e ∈ final.record, e.InOrder text) ∧
    Forward (string text) ∧ Forward (number text) ∧
    ∀ depth, Forward (value text depth) ∧ Forward (object text depth) ∧
      Forward (array text depth) ∧
      Refuses (object text (depth + 257)) ∧ Refuses (array text (depth + 257)) ∧
      ∀ s, Ensures (value text depth) s fun d _ ↦ d.depth ≤ 256 - depth := by
  refine ⟨?_, (obtains_string text).forward, (obtains_number text).forward, fun depth ↦ ?_⟩
  · have hstart : (State.start 0).Before text text.toList := State.before_start (p := []) rfl
    obtain ⟨result, final, hrun, hanswer⟩ := readsAs_parse hstart
    rw [hrun, Document.parse]
    generalize Reader.root text.toList = answer at hanswer
    cases hanswer with
    | ok hd hfinal => exact ⟨final, by rw [hd]; rfl, hfinal.stood, hfinal.inOrder⟩
    | error hfinal => exact ⟨final, rfl, hfinal.stood, hfinal.inOrder⟩
  · have hvalue (n : Nat) : Obtains (Shallow (maxDepth - n)) (value text n) := obtains_value text n
    have hpast : maxDepth < depth + 257 := Nat.le_add_left 257 depth
    refine ⟨(hvalue depth).forward, (obtains_object fun _ ↦ hvalue depth).forward,
      (obtains_array fun _ ↦ hvalue depth).forward, refuses_object hpast text,
      refuses_array hpast text, fun s d s' hd ↦ (hvalue depth s d s' hd).2⟩

end Dialogue.Document.Cursor
