import Dialogue.Proofs.Document.Cursor.Token

/-!
# Progress of the cursor

No run takes the cursor back, and whoever reads a token, a value or a container has moved it
forward. That holds from every state, also from those that no text leads to, and it is said of the
runs themselves: the record of events plays no part. So does the bound on nesting: past the last
level a container is refused where it starts, so what is read at some depth nests no deeper than
what is left.

As a run may have no result, all is said of the results that it may have. `Ensures` has a rule for
each form of a program, and the rule for loops asks for an invariant.
-/

namespace Dialogue.Document.Cursor

open Reader (maxDepth)

variable {α β σ : Type} {text : String} {s : State}

/-- Whatever result the run can have, `Q` holds of it and of the state that it leaves. -/
def Ensures (m : Run α) (s : State) (Q : α → State → Prop) : Prop :=
  ∀ x s', (Except.ok x, s') ∈ m.run.run s → Q x s'

/-- A run that has moved the cursor forward when it has a result. -/
def Forward (m : Run α) : Prop := ∀ s, Ensures m s fun _ s' ↦ s.pos < s'.pos

/-- A run that has not moved the cursor back when it has a result. -/
def Onward (m : Run α) : Prop := ∀ s, Ensures m s fun _ s' ↦ s.pos ≤ s'.pos

/-- A run that has moved the cursor forward when it has a result, and whose result satisfies `P`. -/
def Obtains (P : α → Prop) (m : Run α) : Prop :=
  ∀ s, Ensures m s fun x s' ↦ s.pos < s'.pos ∧ P x

theorem Obtains.forward {P : α → Prop} {m : Run α} (h : Obtains P m) : Forward m :=
  fun s x s' hx ↦ (h s x s' hx).1

theorem Obtains.imp {P P' : α → Prop} {m : Run α} (h : Obtains P m) (himp : ∀ x, P x → P' x) :
    Obtains P' m :=
  fun s x s' hx ↦ (h s x s' hx).imp_right (himp x)

/-- Containers nest at most `n` deep in the document. -/
def Shallow (n : Nat) (d : Document) : Prop := d.depth ≤ n

/-! ## Rules -/

section Rules

variable {Q : α → State → Prop} {Q' : β → State → Prop}

theorem Ensures.imp {m : Run α} {P : α → State → Prop} (h : Ensures m s P)
    (himp : ∀ x s', P x s' → Q x s') : Ensures m s Q :=
  fun x s' hx ↦ himp x s' (h x s' hx)

theorem ensures_pure {x : α} (h : Q x s) : Ensures (pure x) s Q := by
  intro y s' hy
  cases Part.mem_some_iff.mp hy
  exact h

theorem ensures_throw (e : Stop) : Ensures (throw e) s Q := by
  intro y s' hy
  cases Part.mem_some_iff.mp hy

theorem ensures_fail (cause : Cause) (offset : Nat) : Ensures (fail cause offset) s Q :=
  ensures_throw _

theorem ensures_of_run {m : Run α} {x : α} {s' : State} (h : m.run.run s = .some (.ok x, s'))
    (hQ : Q x s') : Ensures m s Q := by
  intro y s'' hy
  rw [h] at hy
  cases Part.mem_some_iff.mp hy
  exact hQ

theorem Ensures.bind {m : Run β} {f : β → Run α} (h : Ensures m s Q')
    (hf : ∀ y s', Q' y s' → Ensures (f y) s' Q) : Ensures (m >>= f) s Q := by
  intro x s'' hx
  rw [ExceptT.run_bind, StateT.run_bind, Part.bind_eq_bind, Part.mem_bind_iff] at hx
  obtain ⟨⟨result, s'⟩, hresult, hx⟩ := hx
  cases result with
  | error e => cases Part.mem_some_iff.mp hx
  | ok y => exact hf y s' (h y s' hresult) x s'' hx

theorem ensures_bind_of_run {m : Run β} {f : β → Run α} {y : β} {s' : State}
    (h : m.run.run s = .some (.ok y, s')) (hf : Ensures (f y) s' Q) : Ensures (m >>= f) s Q := by
  rw [Ensures, run_bind_ok h]
  exact hf

theorem ensures_bind_note {e : Event} {f : Unit → Run α} (h : Ensures (f ()) (s.note e) Q) :
    Ensures (note e >>= f) s Q :=
  ensures_bind_of_run (run_note e s) h

theorem ensures_bind_move {bytes : Nat} {f : Unit → Run α} (h : Ensures (f ()) (s.move bytes) Q) :
    Ensures (move bytes >>= f) s Q :=
  ensures_bind_of_run (run_move bytes s) h

theorem ensures_bind_position {f : Nat → Run α} (h : Ensures (f s.pos) s Q) :
    Ensures (position >>= f) s Q :=
  ensures_bind_of_run (run_position s) h

theorem ensures_bind_peek {f : Option UInt8 → Run α}
    (h : Ensures (f text.toByteArray[s.pos]?) s Q) : Ensures (peek text >>= f) s Q :=
  ensures_bind_of_run (run_peek text s) h

/-- What holds before every round holds until the loop is left. -/
theorem ensures_loop {round : σ → Run (α ⊕ σ)} {I : σ → State → Prop}
    (hround : ∀ x s, I x s → Ensures (round x) s fun y s' ↦
      match y with
      | .inl y => Q y s'
      | .inr x => I x s')
    {x : σ} (h : I x s) : Ensures (loop round x) s Q := by
  intro y s' hy
  refine PFun.fixInduction (C := fun c : σ × State ↦ I c.1 c.2 → Q y s') hy (fun c hc ih hI ↦ ?_) h
  rcases PFun.mem_fix_iff.mp hc with hlast | ⟨c', hnext, -⟩
  · obtain ⟨⟨result, s₁⟩, hresult, heq⟩ := (Part.mem_map_iff _).mp hlast
    rcases result with e | y' | x' <;> cases heq
    exact hround c.1 c.2 hI _ _ hresult
  · obtain ⟨⟨result, s₁⟩, hresult, heq⟩ := (Part.mem_map_iff _).mp hnext
    rcases result with e | y' | x' <;> cases heq
    exact ih _ hnext (hround c.1 c.2 hI _ _ hresult)

end Rules

/-! ## Moving on -/

theorem Forward.onward {m : Run α} (h : Forward m) : Onward m :=
  fun s ↦ (h s).imp fun _ _ ↦ Nat.le_of_lt

theorem onward_pure (x : α) : Onward (pure x) := fun _ ↦ ensures_pure (Nat.le_refl _)

theorem forward_fail (cause : Cause) (offset : Nat) : Forward (fail cause offset : Run α) :=
  fun _ ↦ ensures_fail cause offset

theorem Onward.bind {m : Run β} {f : β → Run α} (h : Onward m) (hf : ∀ y, Onward (f y)) :
    Onward (m >>= f) :=
  fun s ↦ (h s).bind fun y s' hle ↦ (hf y s').imp fun _ _ ↦ Nat.le_trans hle

theorem Onward.bind_forward {m : Run β} {f : β → Run α} (h : Onward m) (hf : ∀ y, Forward (f y)) :
    Forward (m >>= f) :=
  fun s ↦ (h s).bind fun y s' hle ↦ (hf y s').imp fun _ _ ↦ Nat.lt_of_le_of_lt hle

theorem Forward.bind {m : Run β} {f : β → Run α} (h : Forward m) (hf : ∀ y, Onward (f y)) :
    Forward (m >>= f) :=
  fun s ↦ (h s).bind fun y s' hlt ↦ (hf y s').imp fun _ _ ↦ Nat.lt_of_lt_of_le hlt

theorem onward_loop {round : σ → Run (α ⊕ σ)} (h : ∀ x, Onward (round x)) (x : σ) :
    Onward (loop round x) := by
  intro s
  refine ensures_loop (I := fun _ s' ↦ s.pos ≤ s'.pos) (fun x s₁ hle ↦ ?_) (Nat.le_refl _)
  refine (h x s₁).imp fun y s₂ hle' ↦ ?_
  cases y <;> exact Nat.le_trans hle hle'

theorem onward_note (e : Event) : Onward (note e) := fun s ↦
  ensures_of_run (run_note e s) (Nat.le_refl _)

theorem onward_move (bytes : Nat) : Onward (move bytes) := fun s ↦
  ensures_of_run (run_move bytes s) (Nat.le_add_right _ _)

theorem forward_move {bytes : Nat} (h : 0 < bytes) : Forward (move bytes) := fun s ↦
  ensures_of_run (run_move bytes s) (Nat.lt_add_of_pos_right h)

theorem onward_position : Onward position := fun s ↦
  ensures_of_run (run_position s) (Nat.le_refl _)

theorem onward_peek (text : String) : Onward (peek text) := fun s ↦
  ensures_of_run (run_peek text s) (Nat.le_refl _)

theorem onward_take (text : String) (start stop : Nat) : Onward (take text start stop) := by
  refine (onward_note _).bind fun _ ↦ ?_
  split
  · exact onward_pure _
  · exact fun _ ↦ ensures_throw _

theorem onward_takeBytes (text : String) : Onward (takeBytes text) := by
  refine onward_position.bind fun start ↦ (onward_note _).bind fun _ ↦ ?_
  split
  · exact onward_pure _
  · exact fun _ ↦ ensures_throw _

/-- What is noted of a run does not matter. -/
theorem Obtains.advancing {P : α → Prop} {m : Run α} (h : Obtains P m) :
    Obtains P (advancing m) :=
  fun s ↦ ensures_bind_position <| (h s).bind fun _ _ hx ↦
    ensures_bind_position <| ensures_bind_note <| ensures_pure hx

/-! ## Tokens -/

theorem onward_skipWhile (text : String) (p : UInt8 → Bool) : Onward (skipWhile text p) := by
  refine onward_loop (fun _ ↦ (onward_peek text).bind fun b ↦ ?_) ()
  split
  · exact (onward_move 1).bind fun _ ↦ onward_pure _
  · exact onward_pure _

theorem onward_skipIf (text : String) (p : UInt8 → Bool) : Onward (skipIf text p) := by
  refine (onward_peek text).bind fun b ↦ ?_
  split
  · exact onward_move 1
  · exact onward_pure _

theorem onward_nextChar (text : String) : Onward (nextChar text) := by
  refine onward_position.bind fun start ↦ (onward_take _ _ _).bind fun rest ↦ ?_
  split
  · exact onward_pure _
  · exact (onward_move _).bind fun _ ↦ onward_pure _

theorem onward_characters (text : String) (start : Nat) (seen : String) :
    Onward (characters text start seen) := by
  refine onward_loop (fun seen ↦ (onward_nextChar text).bind fun c ↦ ?_) seen
  cases c with
  | none => exact (forward_fail _ _).onward
  | some c =>
      dsimp only
      split
      · exact onward_pure _
      split
      · refine (onward_nextChar text).bind fun c ↦ ?_
        cases c with
        | none => exact (forward_fail _ _).onward
        | some c => exact onward_pure _
      · exact onward_pure _

theorem obtains_string (text : String) : Obtains (fun _ ↦ True) (string text) := by
  refine Obtains.advancing fun s ↦ ?_
  have hforward : Forward (do let start ← position; move 1; characters text start "") :=
    onward_position.bind_forward fun start ↦
      (forward_move Nat.one_pos).bind fun _ ↦ onward_characters text start ""
  exact (hforward s).imp fun _ _ hlt ↦ ⟨hlt, trivial⟩

theorem onward_fraction (text : String) : Onward (fraction text) := by
  refine (onward_peek text).bind fun b ↦ ?_
  split
  · exact (onward_move 1).bind fun _ ↦ onward_skipWhile text _
  · exact onward_pure _

theorem onward_exponent (text : String) : Onward (exponent text) := by
  refine (onward_peek text).bind fun b ↦ ?_
  split
  · exact (onward_move 1).bind fun _ ↦ (onward_skipIf text _).bind fun _ ↦ onward_skipWhile text _
  · exact onward_pure _

/-- Where there is a byte to skip, skipping moves the cursor. -/
theorem ensures_skipWhile {p : UInt8 → Bool} (h : text.toByteArray[s.pos]?.any p) :
    Ensures (skipWhile text p) s fun _ s' ↦ s.pos < s'.pos := by
  rw [skipWhile_eq]
  refine ensures_bind_peek ?_
  rw [if_pos h]
  exact ((forward_move Nat.one_pos).bind fun _ ↦ onward_skipWhile text p) s

/-- A number takes at least one digit. -/
theorem obtains_number (text : String) : Obtains (Shallow 0) (number text) := by
  refine Obtains.advancing fun s ↦ ensures_bind_position <|
    (onward_skipIf text _ s).bind fun _ s₁ hle₁ ↦ ensures_bind_peek ?_
  split
  · next hdigit =>
      refine (ensures_skipWhile hdigit).bind fun _ s₂ hlt ↦
        (onward_fraction text s₂).bind fun _ s₃ hle₃ ↦
          (onward_exponent text s₃).bind fun _ s₄ hle₄ ↦ ensures_bind_position <|
            (onward_take _ _ _ s₄).bind fun _ s₅ hle₅ ↦ ensures_pure ⟨?_, Nat.le_refl 0⟩
      calc s.pos ≤ s₁.pos := hle₁
        _ < s₂.pos := hlt
        _ ≤ s₃.pos := hle₃
        _ ≤ s₄.pos := hle₄
        _ ≤ s₅.pos := hle₅
  · exact ensures_fail _ _

theorem obtains_word (text : String) : Obtains (Shallow 0) (word text) := by
  refine fun s ↦ (onward_takeBytes text s).bind fun rest s₁ hle ↦ ?_
  split
  · next size d hfind =>
      have hword : 0 < size ∧ Shallow 0 d := by
        have hmem := List.mem_of_find?_eq_some hfind
        simp only [words, List.mem_cons, List.not_mem_nil, or_false, Prod.mk.injEq] at hmem
        rcases hmem with ⟨-, rfl, rfl⟩ | ⟨-, rfl, rfl⟩ | ⟨-, rfl, rfl⟩ <;>
          exact ⟨by decide, Nat.le_refl 0⟩
      refine (forward_move hword.1 s₁).bind fun _ s₂ hlt ↦ ensures_pure ⟨?_, hword.2⟩
      exact Nat.lt_of_le_of_lt hle hlt
  · exact ensures_bind_position (ensures_fail _ _)

/-! ## Containers -/

section Containers

variable {P : σ → Prop} {element : σ → Run σ} {close : Char}

/-- Elements that keep what holds of the container and do not move the cursor back. -/
def Keeps (P : σ → Prop) (element : σ → Run σ) : Prop :=
  ∀ x s, P x → Ensures (element x) s fun y s' ↦ s.pos ≤ s'.pos ∧ P y

theorem Keeps.elements (h : Keeps P element) (text : String) (close : Char) :
    Keeps P (elements text element close) := by
  intro x s hx
  refine ensures_loop (I := fun y s' ↦ s.pos ≤ s'.pos ∧ P y) (fun x s₁ hI ↦ ?_)
    ⟨Nat.le_refl _, hx⟩
  obtain ⟨hle, hx⟩ := hI
  refine (h x s₁ hx).bind fun y s₂ hy ↦ (onward_skipWhile text _ s₂).bind fun _ s₃ hle₃ ↦
    ensures_bind_peek ?_
  have hle' : s.pos ≤ s₃.pos := hle.trans (hy.1.trans hle₃)
  split
  · exact ensures_bind_move (ensures_pure ⟨Nat.le_succ_of_le hle', hy.2⟩)
  split
  · exact ensures_bind_move (ensures_pure ⟨Nat.le_succ_of_le hle', hy.2⟩)
  · exact ensures_bind_position (ensures_fail _ _)

/-- The bracket in front moves the cursor, whatever follows. -/
theorem Keeps.obtains_enclosed (h : Keeps P element) (text : String) (close : Char) {x : σ}
    (hx : P x) : Obtains P (enclosed text element close x) := by
  refine fun s ↦ (forward_move Nat.one_pos s).bind fun _ s₁ hlt ↦
    (onward_skipWhile text _ s₁).bind fun _ s₂ hle ↦ ensures_bind_peek ?_
  have hlt' : s.pos < s₂.pos := Nat.lt_of_lt_of_le hlt hle
  split
  · exact ensures_bind_move (ensures_pure ⟨Nat.lt_succ_of_lt hlt', hx⟩)
  · exact (h.elements text close x s₂ hx).imp fun y s₃ hy ↦ ⟨Nat.lt_of_lt_of_le hlt' hy.1, hy.2⟩

theorem onward_key (text : String) : Onward (key text) := by
  refine (onward_skipWhile text _).bind fun _ ↦ (onward_peek text).bind fun b ↦ ?_
  split
  · refine (obtains_string text).forward.onward.bind fun name ↦
      (onward_skipWhile text _).bind fun _ ↦ (onward_peek text).bind fun b ↦ ?_
    split
    · exact (onward_move 1).bind fun _ ↦ onward_pure name
    · exact onward_position.bind fun _ ↦ (forward_fail _ _).onward
  · exact onward_position.bind fun _ ↦ (forward_fail _ _).onward

def Entries.Shallow (n : Nat) (entries : Entries) : Prop := ∀ e ∈ entries.list, Cursor.Shallow n e.2

theorem ensures_put {n : Nat} {entries : Entries} (h : entries.Shallow n) (name : String)
    {d : Document} (hd : Shallow n d) :
    Ensures (entries.put name d) s fun y s' ↦ s.pos ≤ s'.pos ∧ y.Shallow n := by
  rw [Entries.put]
  split
  · refine ensures_bind_note ?_
    split
    · next slot _ hslot =>
        refine ensures_pure ⟨Nat.le_refl _, fun e he ↦ ?_⟩
        obtain ⟨before, e', after, hlist, -, hmodify⟩ :=
          List.exists_of_modify (fun e : String × Document ↦ (e.1, d)) hslot
        rw [Entries.Shallow, hlist, List.forall_mem_append, List.forall_mem_cons] at h
        dsimp only at he
        rw [hmodify, List.mem_append, List.mem_cons] at he
        rcases he with he | rfl | he
        · exact h.1 e he
        · exact hd
        · exact h.2.2 e he
    · exact ensures_throw _
  · refine ensures_pure ⟨Nat.le_refl _, ?_⟩
    exact List.forall_mem_append.mpr ⟨h, List.forall_mem_singleton.mpr hd⟩

end Containers

/-! ## Values -/

section Values

variable {depth : Nat} {body : Run Document}

/-- A container that stands past the last level is refused where it starts. -/
def Refuses (m : Run Document) : Prop :=
  ∀ s, ∃ s' : State, s'.pos = s.pos ∧
    m.run.run s = .some (.error (.malformed ⟨.tooDeep, s.pos⟩), s')

theorem refuses_container (h : maxDepth < depth) :
    Refuses (do
      note (.called depth)
      advancing do
        if maxDepth < depth then fail .tooDeep (← position) else body) := by
  refine fun s ↦ ⟨s.note (.called depth), rfl, ?_⟩
  rw [run_bind_ok (run_note _ s), advancing, run_bind_ok (run_position _), if_pos h]
  exact run_bind_error (run_bind_ok (run_position _))

theorem refuses_object (h : maxDepth < depth) (text : String) : Refuses (object text depth) := by
  rw [object]
  exact refuses_container h

theorem refuses_array (h : maxDepth < depth) (text : String) : Refuses (array text depth) := by
  rw [array]
  exact refuses_container h

theorem obtains_container {P : Document → Prop} (h : depth ≤ maxDepth → Obtains P body) :
    Obtains P (do
      note (.called depth)
      advancing do
        if maxDepth < depth then fail .tooDeep (← position) else body) := by
  refine fun s ↦ ensures_bind_note <| Obtains.advancing (fun s ↦ ?_) (s.note (.called depth))
  split
  · exact ensures_bind_position (ensures_fail _ _)
  · next hdepth => exact h (Nat.le_of_not_lt hdepth) s

theorem obtains_object
    (h : depth ≤ maxDepth → Obtains (Shallow (maxDepth - depth)) (value text depth)) :
    Obtains (Shallow (maxDepth + 1 - depth)) (object text depth) := by
  rw [object]
  refine obtains_container fun hdepth ↦ ?_
  have hentry : Keeps (Entries.Shallow (maxDepth - depth)) (fun entries ↦ do
      let name ← key text
      entries.put name (← value text depth)) := by
    refine fun entries s hentries ↦ (onward_key text s).bind fun name s₁ hle₁ ↦
      (h hdepth s₁).bind fun d s₂ hd ↦ ?_
    refine (ensures_put hentries name hd.2).imp fun y s₃ hy ↦ ⟨?_, hy.2⟩
    exact hle₁.trans (hd.1.le.trans hy.1)
  refine fun s ↦ (hentry.obtains_enclosed text '}' (x := {}) nofun s).bind fun entries s₁ he ↦
    ensures_pure ⟨he.1, ?_⟩
  have hentries : entriesDepth entries.list ≤ maxDepth - depth := entriesDepth_le_iff.mpr he.2
  rw [Shallow, Document.depth, Nat.sub_add_comm hdepth]
  exact Nat.succ_le_succ hentries

theorem obtains_array
    (h : depth ≤ maxDepth → Obtains (Shallow (maxDepth - depth)) (value text depth)) :
    Obtains (Shallow (maxDepth + 1 - depth)) (array text depth) := by
  rw [array]
  refine obtains_container fun hdepth ↦ ?_
  have hitem : Keeps (fun items ↦ ∀ d ∈ items, Shallow (maxDepth - depth) d) (fun items ↦ do
      return items ++ [← value text depth]) := by
    refine fun items s hitems ↦ (h hdepth s).bind fun d s₁ hd ↦ ensures_pure ⟨hd.1.le, ?_⟩
    exact List.forall_mem_append.mpr ⟨hitems, List.forall_mem_singleton.mpr hd.2⟩
  refine fun s ↦ (hitem.obtains_enclosed text ']' (x := []) nofun s).bind fun items s₁ hi ↦
    ensures_pure ⟨hi.1, ?_⟩
  have hitems : itemsDepth items ≤ maxDepth - depth := itemsDepth_le_iff.mpr hi.2
  rw [Shallow, Document.depth, Nat.sub_add_comm hdepth]
  exact Nat.succ_le_succ hitems

/-- Below a value containers are one level deeper, up to the last level. -/
theorem obtains_value (text : String) (depth : Nat) :
    Obtains (Shallow (maxDepth - depth)) (value text depth) := by
  have hdeeper : depth + 1 ≤ maxDepth →
      Obtains (Shallow (maxDepth - (depth + 1))) (value text (depth + 1)) :=
    fun _ ↦ obtains_value text (depth + 1)
  have hobject := obtains_object hdeeper
  have harray := obtains_array hdeeper
  rw [Nat.add_sub_add_right] at hobject harray
  have hflat (d : Document) (hd : Shallow 0 d) : Shallow (maxDepth - depth) d :=
    Nat.le_trans hd (Nat.zero_le _)
  rw [value]
  refine fun s ↦ ensures_bind_note <| Obtains.advancing (fun s ↦ ?_) (s.note (.called depth))
  refine (onward_skipWhile text _ s).bind fun _ s₁ hle ↦ ensures_bind_peek ?_
  have hlater {m : Run Document} (hm : Obtains (Shallow (maxDepth - depth)) m) :
      Ensures m s₁ fun d s₂ ↦ s.pos < s₂.pos ∧ Shallow (maxDepth - depth) d :=
    (hm s₁).imp fun d s₂ hd ↦ ⟨Nat.lt_of_le_of_lt hle hd.1, hd.2⟩
  split
  · exact hlater hobject
  split
  · exact hlater harray
  split
  · exact hlater fun s₁ ↦ (obtains_string text s₁).bind fun x s₂ hx ↦
      ensures_pure ⟨hx.1, hflat _ (Nat.le_refl 0)⟩
  split
  · exact hlater ((obtains_number text).imp hflat)
  · exact hlater ((obtains_word text).imp hflat)
termination_by maxDepth - depth

end Values

end Dialogue.Document.Cursor
