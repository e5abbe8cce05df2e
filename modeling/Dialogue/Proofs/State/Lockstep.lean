import Dialogue.Proofs.State.Restoring
import Mathlib.Data.List.Permutation

/-!
# Limited and unlimited histories in lockstep

What is done to a state with a limit and to one without differs in the history alone, and there only
in what has been forgotten: the limited history is the end of the unlimited one. Once the limited
state has gone back it may remember less than its limit allows, since what it forgot does not come
back. Until then, and again after the history is replaced, it remembers all that it may.
-/

namespace Dialogue.State

/-! ## Operations -/

/-- What can be done to a state. -/
inductive Operation where
  | setCurrent (id : String)
  | advanceTo (id : String)
  | pushHistory (id : String)
  | popHistory
  | setVariable (name : String) (value : Int32)
  | reset
  | restore (text : String)
deriving DecidableEq, Repr

/-- The state after an operation. Popping an empty history changes nothing, and neither does a text
that cannot be restored. -/
def apply (s : State) : Operation → State
  | .setCurrent id => s.setCurrent id
  | .advanceTo id => s.advanceTo id
  | .pushHistory id => s.pushHistory id
  | .popHistory => (s.popHistory?.map (·.2)).getD s
  | .setVariable name value => s.setVariable name value
  | .reset => s.reset
  | .restore text => (s.restore text).toOption.getD s

def run (s : State) (ops : List Operation) : State := ops.foldl apply s

@[simp] theorem run_nil (s : State) : s.run [] = s := rfl

@[simp] theorem run_cons (s : State) (op : Operation) (ops : List Operation) :
    s.run (op :: ops) = (s.apply op).run ops := rfl

theorem run_append (s : State) (ops ops' : List Operation) :
    s.run (ops ++ ops') = (s.run ops).run ops' :=
  List.foldl_append

theorem apply_popHistory (s : State) :
    s.apply .popHistory = { s with history := s.history.dropLast } := by
  rcases List.eq_nil_or_concat' s.history with h | ⟨ids, id, h⟩
  · rw [apply, popHistory?_of_nil h, h, List.dropLast_nil, ← h]
    rfl
  · rw [apply, popHistory?_of_concat h, h, List.dropLast_concat]
    rfl

/-- Whether a text can be restored does not depend on the state. -/
theorem apply_restore_cases (text : String) :
    (∃ d, ∀ s : State, s.restore text = .ok (s.restoreFrom d) ∧
      s.apply (.restore text) = s.restoreFrom d) ∨
    ∀ s : State, (∀ s', s.restore text ≠ .ok s') ∧ s.apply (.restore text) = s := by
  cases hparse : Document.parse text with
  | ok d =>
      refine .inl ⟨d, fun s ↦ ?_⟩
      have hrestore : s.restore text = .ok (s.restoreFrom d) := by rw [restore, hparse]
      exact ⟨hrestore, by rw [apply, hrestore]; rfl⟩
  | error e =>
      refine .inr fun s ↦ ?_
      have hrestore : s.restore text = .error (.malformed e) := by rw [restore, hparse]
      refine ⟨fun s' h ↦ ?_, by rw [apply, hrestore]; rfl⟩
      rw [hrestore] at h
      cases h

/-! ## Following -/

/-- The state `s` has the limit `n` and otherwise differs from `t`, which has none, only in that its
history goes less far back. -/
structure Follows (n : Nat) (s t : State) : Prop where
  limit_eq : s.limit = some n
  limit_eq_none : t.limit = none
  current_eq : s.current = t.current
  values_eq : s.values = t.values
  suffix : s.history <:+ t.history
  length_le : s.history.length ≤ n

namespace Follows

variable {n : Nat} {s t : State}

theorem fresh (n : Nat) : Follows n (fresh (some n)) (fresh none) where
  limit_eq := rfl
  limit_eq_none := rfl
  current_eq := rfl
  values_eq := rfl
  suffix := List.suffix_rfl
  length_le := Nat.zero_le n

theorem setCurrent (h : Follows n s t) (id : String) :
    Follows n (s.setCurrent id) (t.setCurrent id) :=
  { h with current_eq := rfl }

theorem setVariable (h : Follows n s t) (name : String) (value : Int32) :
    Follows n (s.setVariable name value) (t.setVariable name value) :=
  { h with values_eq := congrArg (·.insert name value) h.values_eq }

theorem reset (h : Follows n s t) : Follows n s.reset t.reset := by
  rw [State.reset, State.reset, h.limit_eq, h.limit_eq_none]
  exact fresh n

/-- Entries are forgotten from the front, and so the newest ones are the same. -/
theorem pushHistory (h : Follows n s t) (id : String) :
    Follows n (s.pushHistory id) (t.pushHistory id) where
  limit_eq := h.limit_eq
  limit_eq_none := h.limit_eq_none
  current_eq := h.current_eq
  values_eq := h.values_eq
  suffix := by
    rw [history_pushHistory, history_pushHistory, h.limit_eq_none]
    exact (lastUpTo_suffix _).trans (List.suffix_append_self_iff.mpr h.suffix)
  length_le := by
    rw [history_pushHistory, h.limit_eq]
    exact length_lastUpTo_le rfl _

/-- The limited state may have nothing left to take off. -/
theorem popHistory (h : Follows n s t) :
    Follows n (s.apply .popHistory) (t.apply .popHistory) := by
  rw [apply_popHistory, apply_popHistory]
  refine { h with suffix := ?_, length_le := ?_ }
  · obtain ⟨forgotten, hsplit⟩ := h.suffix
    by_cases hnil : s.history = []
    · rw [hnil]
      exact List.nil_suffix
    · rw [← hsplit, List.dropLast_append_of_ne_nil hnil]
      exact List.suffix_append _ _
  · exact (List.dropLast_sublist _).length_le.trans h.length_le

theorem hasCurrent_eq (h : Follows n s t) : s.hasCurrent = t.hasCurrent := by
  rw [hasCurrent, hasCurrent, h.current_eq]

theorem advanceTo (h : Follows n s t) (id : String) :
    Follows n (s.advanceTo id) (t.advanceTo id) := by
  rw [State.advanceTo, State.advanceTo, ← h.hasCurrent_eq, ← h.current_eq]
  split
  · exact (h.pushHistory s.current).setCurrent id
  · exact h.setCurrent id

theorem restoreFrom (h : Follows n s t) (d : Document) :
    Follows n (s.restoreFrom d) (t.restoreFrom d) := by
  have hsuffix (ids : List String) : lastUpTo (some n) ids <:+ lastUpTo none ids :=
    lastUpTo_suffix ids
  rw [restoreFrom_eq, restoreFrom_eq, h.limit_eq, h.limit_eq_none, h.current_eq]
  exact ⟨rfl, rfl, rfl, rfl, hsuffix _, length_lastUpTo_le rfl _⟩

theorem apply (h : Follows n s t) (op : Operation) : Follows n (s.apply op) (t.apply op) := by
  cases op with
  | setCurrent id => exact h.setCurrent id
  | advanceTo id => exact h.advanceTo id
  | pushHistory id => exact h.pushHistory id
  | popHistory => exact h.popHistory
  | setVariable name value => exact h.setVariable name value
  | reset => exact h.reset
  | restore text =>
      rcases apply_restore_cases text with ⟨d, hd⟩ | hnone
      · rw [(hd s).2, (hd t).2]
        exact h.restoreFrom d
      · rw [(hnone s).2, (hnone t).2]
        exact h

theorem run (h : Follows n s t) (ops : List Operation) : Follows n (s.run ops) (t.run ops) := by
  induction ops generalizing s t with
  | nil => exact h
  | cons op ops ih => exact ih (h.apply op)

end Follows

/-! ## Remembering all that the limit allows -/

/-- The history of `s` is what the limit `n` leaves of that of `t`. -/
def RemembersAll (n : Nat) (s t : State) : Prop := s.history = lastUpTo (some n) t.history

/-- Whether an operation replaces the history: resetting does, and so does restoring a text that can
be restored. -/
def Operation.Restarts : Operation → Prop
  | .reset => True
  | .restore text => ∃ s s' : State, s.restore text = .ok s'
  | _ => False

/-- Since the start, or since the history was last replaced, nothing was taken off it. -/
def Unpopped (ops : List Operation) : Prop :=
  ∃ before after, ops = before ++ after ∧ (∀ op ∈ before.getLast?, op.Restarts) ∧
    .popHistory ∉ after

section RemembersAll

variable {n : Nat} {s t : State}

theorem RemembersAll.pushHistory (h : Follows n s t) (hall : RemembersAll n s t) (id : String) :
    RemembersAll n (s.pushHistory id) (t.pushHistory id) := by
  have hcut : lastUpTo (some n) (s.history ++ [id]) = lastUpTo (some n) (t.history ++ [id]) := by
    rw [hall, lastUpTo_append]
  rw [RemembersAll, history_pushHistory, history_pushHistory, h.limit_eq, h.limit_eq_none]
  exact hcut

theorem remembersAll_of_restarts (h : Follows n s t) {op : Operation} (hop : op.Restarts) :
    RemembersAll n (s.apply op) (t.apply op) := by
  cases op with
  | reset => exact lastUpTo_nil.symm
  | restore text =>
      obtain ⟨s', s'', hrestore⟩ := hop
      rcases apply_restore_cases text with ⟨d, hd⟩ | hnone
      · rw [(hd s).2, (hd t).2, restoreFrom_eq, restoreFrom_eq, h.limit_eq, h.limit_eq_none]
        rfl
      · exact absurd hrestore ((hnone s').1 s'')
  | _ => cases hop

/-- Only going back makes the limited state remember less than it may. -/
theorem RemembersAll.apply (h : Follows n s t) (hall : RemembersAll n s t) {op : Operation}
    (hop : op ≠ .popHistory) : RemembersAll n (s.apply op) (t.apply op) := by
  cases op with
  | setCurrent id => exact hall
  | advanceTo id =>
      rw [State.apply, State.apply, advanceTo, advanceTo, ← h.hasCurrent_eq, ← h.current_eq]
      split
      · exact RemembersAll.pushHistory h hall s.current
      · exact hall
  | pushHistory id => exact RemembersAll.pushHistory h hall id
  | popHistory => exact absurd rfl hop
  | setVariable name value => exact hall
  | reset => exact remembersAll_of_restarts h trivial
  | restore text =>
      rcases apply_restore_cases text with ⟨d, hd⟩ | hnone
      · exact remembersAll_of_restarts h ⟨s, _, (hd s).1⟩
      · rw [(hnone s).2, (hnone t).2]
        exact hall

theorem RemembersAll.run (h : Follows n s t) (hall : RemembersAll n s t) {ops : List Operation}
    (hops : .popHistory ∉ ops) : RemembersAll n (s.run ops) (t.run ops) := by
  induction ops generalizing s t with
  | nil => exact hall
  | cons op ops ih =>
      obtain ⟨hop, hops⟩ := not_or.mp (mt List.mem_cons.mpr hops)
      exact ih (h.apply op) (hall.apply h (Ne.symm hop)) hops

theorem remembersAll_of_unpopped {ops : List Operation} (h : Unpopped ops) :
    RemembersAll n ((fresh (some n)).run ops) ((fresh none).run ops) := by
  obtain ⟨before, after, rfl, hlast, hafter⟩ := h
  rw [run_append, run_append]
  refine RemembersAll.run ((Follows.fresh n).run before) ?_ hafter
  rcases List.eq_nil_or_concat' before with rfl | ⟨before, op, rfl⟩
  · exact lastUpTo_nil.symm
  · rw [run_append, run_append]
    exact remembersAll_of_restarts ((Follows.fresh n).run before) (hlast op (by simp))

end RemembersAll

/-! ## In lockstep -/

/-- Whatever is done to a fresh state with the limit `n` and to one without a limit, they agree
after each step on the current node and the variables, and the limited history is the end of the
unlimited one and no longer than `n`. As long as nothing was taken off the history since the start,
or since the state was last reset or restored, the limited history is exactly the last `n` entries
of the unlimited one, or all of them if there are fewer. -/
theorem run_lockstep (n : Nat) (ops : List Operation) :
    let s := (fresh (some n)).run ops
    let t := (fresh none).run ops
    s.current = t.current ∧ s.values = t.values ∧ s.history <:+ t.history ∧
    s.history.length ≤ n ∧
    (Unpopped ops → s.history = t.history.rtake (min n t.history.length)) := by
  intro s t
  have h : Follows n s t := (Follows.fresh n).run ops
  refine ⟨h.current_eq, h.values_eq, h.suffix, h.length_le, fun hops ↦ ?_⟩
  have hall : s.history = lastUpTo (some n) t.history := remembersAll_of_unpopped hops
  have hcut : t.history.length - min n t.history.length = t.history.length - n := by omega
  rw [hall, lastUpTo, List.rtake, hcut]

/-- Going back from the third node leaves nothing to go back to under a limit of one. What is
restored after that is remembered up to the limit again. -/
theorem run_lockstep_restored :
    let before : List Operation :=
      [.advanceTo "a", .advanceTo "b", .advanceTo "c", .popHistory]
    let after : List Operation := [.restore "\x7b\"history\":[\"x\",\"y\"]\x7d", .pushHistory "z"]
    ((fresh (some 1)).run before).history = [] ∧ ((fresh none).run before).history = ["a"] ∧
    Unpopped (before ++ after) ∧
    ((fresh (some 1)).run (before ++ after)).history =
      ((fresh none).run (before ++ after)).history.rtake 1 := by
  intro before after
  let d : Document := .object [("history", .array [.string "x", .string "y"])]
  have hparse : Document.parse "\x7b\"history\":[\"x\",\"y\"]\x7d" = .ok d := by cbv
  have hunpopped : Unpopped (before ++ after) := by
    refine ⟨before ++ after.take 1, after.drop 1, rfl, ?_, by decide⟩
    intro op hop
    obtain rfl := Option.some.inj hop
    exact ⟨fresh none, _, by rw [restore, hparse]⟩
  have hlength : ((fresh none).run (before ++ after)).history.length = 3 := by decide +kernel
  obtain ⟨-, -, -, -, hall⟩ := run_lockstep 1 (before ++ after)
  have hlast := hall hunpopped
  rw [hlength] at hlast
  exact ⟨by decide +kernel, by decide +kernel, hunpopped, hlast⟩

end Dialogue.State
