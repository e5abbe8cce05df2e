import Dialogue.Proofs.Document.Cursor.Bytes

/-!
# Runs with a cursor

What a run gives is compared with what a reader of characters answers, from the place where the
cursor stands: `Gives` says that the run ends, that it has the result or the fault of the reader,
that the cursor stands where the reader left off, and that nothing on the record was out of order on
the way. There is a rule for each form of a program, so a program is shown to give an answer along
its own structure.
-/

namespace Dialogue.Document.Cursor

/-! ## Order -/

/-- A byte before which a cursor may stand. -/
def Boundary (text : String) (pos : Nat) : Prop :=
  pos ≤ text.utf8ByteSize ∧ String.Pos.Raw.IsValid text ⟨pos⟩

/-- The cursor stands between characters, what is taken and replaced is there, calls are not nested
deeper than the root and 256 more, and what is read moves the cursor forward. -/
def Event.InOrder (text : String) : Event → Prop
  | .stood pos => Boundary text pos
  | .taken start stop => start ≤ stop ∧ Boundary text start ∧ Boundary text stop
  | .takenBytes start => start ≤ text.utf8ByteSize
  | .replaced slot size => slot < size
  | .called depth => depth ≤ 257
  | .returned start stop => start < stop

namespace State

structure Sound (text : String) (s : State) : Prop where
  stood : .stood s.pos ∈ s.record
  inOrder : ∀ e ∈ s.record, e.InOrder text

/-- The cursor stands before the characters `r`. -/
structure Before (text : String) (r : List Char) (s : State) : Prop extends Sound text s where
  split : ∃ p, text.toList = p ++ r ∧ s.pos = utf8Size p

theorem Sound.note {text : String} {s : State} {e : Event} (h : s.Sound text)
    (he : e.InOrder text) : (s.note e).Sound text where
  stood := List.mem_cons_of_mem e h.stood
  inOrder := List.forall_mem_cons.mpr ⟨he, h.inOrder⟩

section Before

variable {text : String} {r : List Char} {s : State}

theorem Before.note {e : Event} (h : s.Before text r) (he : e.InOrder text) :
    (s.note e).Before text r where
  toSound := h.toSound.note he
  split := h.split

theorem boundary_of_split {p : List Char} (h : text.toList = p ++ r) :
    Boundary text (utf8Size p) := by
  refine ⟨?_, isValid_utf8Size h⟩
  rw [utf8ByteSize_eq, h, utf8Size_append]
  exact Nat.le_add_right _ _

theorem Before.boundary (h : s.Before text r) : Boundary text s.pos := by
  obtain ⟨p, hp, hpos⟩ := h.split
  exact hpos ▸ boundary_of_split hp

theorem before_start {p : List Char} (h : text.toList = p ++ r) :
    (start (utf8Size p)).Before text r where
  stood := List.mem_cons_self
  inOrder := List.forall_mem_singleton.mpr (boundary_of_split h)
  split := ⟨p, h, rfl⟩

theorem Before.move {q : List Char} (h : s.Before text (q ++ r)) :
    (s.move (utf8Size q)).Before text r := by
  obtain ⟨p, hp, hpos⟩ := h.split
  have hsplit : text.toList = (p ++ q) ++ r := by rw [hp, List.append_assoc]
  have hnew : s.pos + utf8Size q = utf8Size (p ++ q) := by rw [hpos, utf8Size_append]
  refine ⟨⟨List.mem_cons_self, List.forall_mem_cons.mpr ⟨?_, h.inOrder⟩⟩, p ++ q, hsplit, hnew⟩
  exact hnew ▸ boundary_of_split hsplit

theorem Before.move_char {c : Char} (h : s.Before text (c :: r)) :
    (s.move c.utf8Size).Before text r :=
  Before.move (q := [c]) h

theorem Before.move_one {c : Char} (hc : c.toNat < 128) (h : s.Before text (c :: r)) :
    (s.move 1).Before text r := by
  have hmove := h.move_char
  rwa [utf8Size_of_ascii hc] at hmove

theorem Before.peek_eq (h : s.Before text r) : text.toByteArray[s.pos]? = firstByte r := by
  obtain ⟨p, hp, hpos⟩ := h.split
  rw [hpos]
  exact getElem?_toByteArray hp

theorem Before.pos_add (h : s.Before text r) : s.pos + utf8Size r = utf8Size text.toList := by
  obtain ⟨p, hp, hpos⟩ := h.split
  rw [hpos, hp, utf8Size_append]

theorem Before.pos_eq {p : List Char} (h : s.Before text r) (hp : text.toList = p ++ r) :
    s.pos = utf8Size p := by
  have hsize := h.pos_add
  rw [hp, utf8Size_append] at hsize
  exact Nat.add_right_cancel hsize

/-- The cursor stands further on where fewer characters are left. -/
theorem Before.pos_lt {q : List Char} {s' : State} (h : s.Before text (q ++ r))
    (h' : s'.Before text r) (hq : q ≠ []) : s.pos < s'.pos := by
  obtain ⟨c, q, rfl⟩ := List.exists_cons_of_ne_nil hq
  have hsize := h.pos_add
  have hsize' := h'.pos_add
  have hc := c.utf8Size_pos
  rw [List.cons_append, utf8Size_cons, utf8Size_append] at hsize
  omega

end Before

end State

/-! ## Answers -/

/-- A fault in the text, as an error that says how many bytes stand before it. -/
def faultAt (text : String) (e : Reader.Fault) : SyntaxError :=
  ⟨e.cause, utf8Size text.toList - utf8Size e.rest⟩

variable {α β γ : Type} {text : String} {R : β → α → Prop} {s : State}
  {answer : Except Reader.Fault (α × List Char)}

/-- A run has ended as a reader answers, with a result that `R` relates to the reader's. -/
inductive Answers (text : String) (R : β → α → Prop) :
    Except Reader.Fault (α × List Char) → Except Stop β → State → Prop
  | ok {x : α} {r : List Char} {y : β} {s : State} :
      R y x → s.Before text r → Answers text R (.ok (x, r)) (.ok y) s
  | error {e : Reader.Fault} {s : State} :
      s.Sound text → Answers text R (.error e) (.error (.malformed (faultAt text e))) s

def Gives (text : String) (R : β → α → Prop) (m : Run β) (s : State)
    (answer : Except Reader.Fault (α × List Char)) : Prop :=
  ∃ result s', m.run.run s = .some (result, s') ∧ Answers text R answer result s'

theorem Gives.exists_run {m : Run α} {x : α} {r : List Char}
    (h : Gives text Eq m s (.ok (x, r))) :
    ∃ s', m.run.run s = .some (.ok x, s') ∧ s'.Before text r := by
  obtain ⟨_, s', hrun, hanswer⟩ := h
  cases hanswer with
  | ok hy hs' => exact ⟨s', hy ▸ hrun, hs'⟩

/-! ### Loops -/

theorem loop_eq {σ : Type} (round : σ → Run (α ⊕ σ)) (x : σ) :
    loop round x = (do
      match ← round x with
      | .inl y => return y
      | .inr x => loop round x) := by
  refine ExceptT.ext <| StateT.ext fun s ↦ Part.ext fun b ↦ ?_
  rw [ExceptT.run_bind, StateT.run_bind, Part.bind_eq_bind, Part.mem_bind_iff]
  constructor
  · intro h
    rcases PFun.mem_fix_iff.mp h with h | ⟨c, hc, h⟩
    · obtain ⟨⟨result, s'⟩, hround, hnext⟩ := (Part.mem_map_iff _).mp h
      refine ⟨(result, s'), hround, ?_⟩
      rcases result with e | y | x' <;> cases hnext <;> exact Part.mem_some _
    · obtain ⟨⟨result, s'⟩, hround, hnext⟩ := (Part.mem_map_iff _).mp hc
      refine ⟨(result, s'), hround, ?_⟩
      rcases result with e | y | x' <;> cases hnext
      exact h
  · rintro ⟨⟨result, s'⟩, hround, h⟩
    have hnext := Part.mem_map next hround
    rcases result with e | y | x'
    · obtain rfl := Part.mem_some_iff.mp h
      exact PFun.fix_stop hnext
    · obtain rfl := Part.mem_some_iff.mp h
      exact PFun.fix_stop hnext
    · exact PFun.mem_fix_iff.mpr (.inr ⟨_, hnext, h⟩)

/-! ### Results and faults -/

theorem gives_pure {x : α} {r : List Char} {y : β} (hs : s.Before text r) (hy : R y x) :
    Gives text R (pure y) s (.ok (x, r)) :=
  ⟨.ok y, s, rfl, .ok hy hs⟩

theorem gives_fail {cause : Cause} {rest : List Char} {offset : Nat} (hs : s.Sound text)
    (hoffset : offset + utf8Size rest = utf8Size text.toList) :
    Gives text R (fail cause offset) s (.error ⟨cause, rest⟩) := by
  obtain rfl : offset = utf8Size text.toList - utf8Size rest := Nat.eq_sub_of_add_eq hoffset
  exact ⟨_, s, rfl, .error hs⟩

/-! ### Sequences -/

theorem run_bind_ok {m : Run β} {f : β → Run γ} {y : β} {s' : State}
    (h : m.run.run s = .some (.ok y, s')) : (m >>= f).run.run s = (f y).run.run s' := by
  rw [ExceptT.run_bind, StateT.run_bind, h]
  exact Part.bind_some _ _

theorem run_bind_error {m : Run β} {f : β → Run γ} {e : Stop} {s' : State}
    (h : m.run.run s = .some (.error e, s')) : (m >>= f).run.run s = .some (.error e, s') := by
  rw [ExceptT.run_bind, StateT.run_bind, h]
  exact Part.bind_some _ _

theorem fail_bind (cause : Cause) (offset : Nat) (f : β → Run γ) :
    fail cause offset >>= f = fail cause offset :=
  ExceptT.ext <| StateT.ext fun _ ↦ run_bind_error rfl

theorem run_modify (f : State → State) (s : State) :
    (modify f : Run Unit).run.run s = .some (.ok (), f s) :=
  Part.bind_some ((), f s) fun p ↦ Part.some (Except.ok p.1, p.2)

theorem run_get_map (f : State → α) (s : State) :
    (do return f (← get) : Run α).run.run s = .some (.ok (f s), s) := by
  have hget : (get : Run State).run.run s = .some (.ok s, s) :=
    Part.bind_some (s, s) fun p ↦ Part.some (Except.ok p.1, p.2)
  exact run_bind_ok hget

theorem run_note (e : Event) (s : State) : (note e).run.run s = .some (.ok (), s.note e) :=
  run_modify _ s

theorem run_move (bytes : Nat) (s : State) :
    (move bytes).run.run s = .some (.ok (), s.move bytes) :=
  run_modify _ s

theorem run_position (s : State) : position.run.run s = .some (.ok s.pos, s) := run_get_map _ s

theorem run_peek (text : String) (s : State) :
    (peek text).run.run s = .some (.ok text.toByteArray[s.pos]?, s) :=
  run_get_map _ s

section Bind

variable {α' : Type} {R' : γ → α' → Prop} {answer' : Except Reader.Fault (α' × List Char)}

theorem gives_bind_of_run {m : Run β} {f : β → Run γ} {y : β} {s' : State}
    (h : m.run.run s = .some (.ok y, s')) (hf : Gives text R' (f y) s' answer') :
    Gives text R' (m >>= f) s answer' := by
  rw [Gives, run_bind_ok h]
  exact hf

theorem Gives.bind {m : Run β} {f : β → Run γ} {x : α} {r : List Char}
    (h : Gives text R m s (.ok (x, r)))
    (hf : ∀ y s', R y x → s'.Before text r → Gives text R' (f y) s' answer') :
    Gives text R' (m >>= f) s answer' := by
  obtain ⟨_, s', hrun, hanswer⟩ := h
  cases hanswer with
  | ok hy hs' => exact gives_bind_of_run hrun (hf _ s' hy hs')

theorem Gives.bind_error {m : Run β} {f : β → Run γ} {e : Reader.Fault}
    (h : Gives text R m s (.error e)) : Gives text R' (m >>= f) s (.error e) := by
  obtain ⟨_, s', hrun, hanswer⟩ := h
  cases hanswer with
  | error hs' => exact ⟨_, s', run_bind_error hrun, .error hs'⟩

/-- What follows is compared where the reader has a result, and its fault is the fault of all. -/
theorem Gives.bind_cases {m : Run β} {f : β → Run γ} (h : Gives text R m s answer)
    (herror : ∀ e, answer = .error e → answer' = .error e)
    (hok : ∀ x r y s', answer = .ok (x, r) → R y x → s'.Before text r →
      Gives text R' (f y) s' answer') : Gives text R' (m >>= f) s answer' := by
  cases answer with
  | error e => exact herror e rfl ▸ h.bind_error
  | ok a => exact h.bind fun y s' hy hs' ↦ hok a.1 a.2 y s' rfl hy hs'

theorem gives_bind_note {e : Event} {f : Unit → Run γ} :
    Gives text R' (note e >>= f) s answer' ↔ Gives text R' (f ()) (s.note e) answer' := by
  rw [Gives, run_bind_ok (run_note e s)]
  rfl

theorem gives_bind_move {bytes : Nat} {f : Unit → Run γ} :
    Gives text R' (move bytes >>= f) s answer' ↔ Gives text R' (f ()) (s.move bytes) answer' := by
  rw [Gives, run_bind_ok (run_move bytes s)]
  rfl

theorem gives_bind_position {f : Nat → Run γ} :
    Gives text R' (position >>= f) s answer' ↔ Gives text R' (f s.pos) s answer' := by
  rw [Gives, run_bind_ok (run_position s)]
  rfl

theorem gives_bind_peek {f : Option UInt8 → Run γ} {r : List Char} (hs : s.Before text r) :
    Gives text R' (peek text >>= f) s answer' ↔ Gives text R' (f (firstByte r)) s answer' := by
  rw [Gives, run_bind_ok (run_peek text s), hs.peek_eq]
  rfl

/-- What is taken is there, wherever the cursor stands. -/
theorem gives_bind_take {f : String → Run γ} {p q r r' : List Char}
    (hp : text.toList = p ++ (q ++ r)) (hs : s.Before text r')
    (hf : ∀ s', s'.Before text r' → s'.pos = s.pos → Gives text R' (f (.ofList q)) s' answer') :
    Gives text R' (take text (utf8Size p) (utf8Size (p ++ q)) >>= f) s answer' := by
  have hstart : Boundary text (utf8Size p) := State.boundary_of_split hp
  have hstop : Boundary text (utf8Size (p ++ q)) :=
    State.boundary_of_split (by rw [hp, List.append_assoc])
  have hle : utf8Size p ≤ utf8Size (p ++ q) := by
    rw [utf8Size_append]
    exact Nat.le_add_right _ _
  have hrun : (take text (utf8Size p) (utf8Size (p ++ q))).run.run s =
      .some (.ok (.ofList q), s.note (.taken (utf8Size p) (utf8Size (p ++ q)))) := by
    have hvalid : utf8Size p ≤ utf8Size (p ++ q) ∧
        String.Pos.Raw.isValid text ⟨utf8Size p⟩ ∧
        String.Pos.Raw.isValid text ⟨utf8Size (p ++ q)⟩ :=
      ⟨hle, String.Pos.Raw.isValid_eq_true_iff.mpr hstart.2,
        String.Pos.Raw.isValid_eq_true_iff.mpr hstop.2⟩
    rw [take, if_pos hvalid, extract_eq hp]
    exact run_bind_ok (run_note _ s)
  exact gives_bind_of_run hrun (hf _ (hs.note ⟨hle, hstart, hstop⟩) rfl)

theorem gives_bind_takeBytes {f : List UInt8 → Run γ} {r : List Char} (hs : s.Before text r)
    (hf : ∀ s', s'.Before text r → Gives text R' (f (r.flatMap String.utf8EncodeChar)) s' answer') :
    Gives text R' (takeBytes text >>= f) s answer' := by
  have hrun : (takeBytes text).run.run s =
      .some (.ok (r.flatMap String.utf8EncodeChar), s.note (.takenBytes s.pos)) := by
    obtain ⟨p, hp, hpos⟩ := hs.split
    rw [takeBytes, run_bind_ok (run_position s), run_bind_ok (run_note _ s),
      if_pos hs.boundary.1, hpos, drop_toByteArray hp]
    rfl
  exact gives_bind_of_run hrun (hf _ (hs.note hs.boundary.1))

end Bind

/-- Where the next byte is that of an ASCII character, so is the next character. -/
theorem gives_ite_byte {c : Char} (hc : c.toNat < 128) {r : List Char} {yes no : Run β}
    (hyes : ∀ r', r = c :: r' → Gives text R yes s answer)
    (hno : (∀ r', r ≠ c :: r') → Gives text R no s answer) :
    Gives text R (if firstByte r = some (byte c) then yes else no) s answer := by
  split
  · next h =>
      obtain ⟨r', hr'⟩ := List.head?_eq_some_iff.mp ((firstByte_eq_iff hc r).mp h)
      exact hyes r' hr'
  · next h => exact hno fun r' hr' ↦ h ((firstByte_eq_iff hc r).mpr (by rw [hr']; rfl))

/-- A fault where the cursor stands. -/
theorem gives_fail_here {cause : Cause} {rest : List Char} (hs : s.Before text rest) :
    Gives text R (do fail cause (← position)) s (.error ⟨cause, rest⟩) :=
  gives_bind_position.mpr (gives_fail hs.toSound hs.pos_add)

/-- A reader that takes at least one character moves the cursor forward. -/
theorem Gives.advancing {m : Run β} {r : List Char} (h : Gives text R m s answer)
    (hs : s.Before text r) (hprogress : ∀ x r', answer = .ok (x, r') → ∃ q, r = q ++ r' ∧ q ≠ []) :
    Gives text R (advancing m) s answer := by
  refine gives_bind_position.mpr ?_
  cases answer with
  | error e => exact h.bind_error
  | ok a =>
      obtain ⟨x, r'⟩ := a
      obtain ⟨q, rfl, hq⟩ := hprogress x r' rfl
      refine h.bind fun y s' hy hs' ↦ ?_
      rw [gives_bind_position, gives_bind_note]
      exact gives_pure (hs'.note (hs.pos_lt hs' hq)) hy

end Dialogue.Document.Cursor
