import Dialogue.State
import Mathlib.Data.List.DropRight

/-!
# Limited histories

What a limit keeps of a list is the longest suffix that it allows, and nothing is lost by cutting a
list down before it grows: entries that go when the rest arrives may go at once. So a history that
is filled entry by entry is the one that is cut once, at the end.
-/

namespace Dialogue

/-! ## Cutting -/

section Cut

variable {α : Type} {limit : Option Nat}

@[simp] theorem lastUpTo_nil : lastUpTo limit ([] : List α) = [] := by
  cases limit with
  | none => rfl
  | some n => exact List.drop_nil

/-- The suffix of a list that a limit keeps. -/
theorem lastUpTo_suffix (xs : List α) : lastUpTo limit xs <:+ xs := by
  cases limit with
  | none => exact List.suffix_rfl
  | some n => exact List.drop_suffix _ xs

theorem lastUpTo_some (n : Nat) (xs : List α) :
    lastUpTo (some n) xs = (xs.reverse.take n).reverse := by
  rw [lastUpTo, List.take_reverse, List.reverse_reverse]

theorem length_lastUpTo_le {n : Nat} (hn : n ∈ limit) (xs : List α) :
    (lastUpTo limit xs).length ≤ n := by
  obtain rfl := hn
  rw [lastUpTo, List.length_drop]
  omega

theorem lastUpTo_eq_self {xs : List α} (h : ∀ n ∈ limit, xs.length ≤ n) :
    lastUpTo limit xs = xs := by
  cases limit with
  | none => rfl
  | some n =>
      have hn : xs.length - n = 0 := Nat.sub_eq_zero_of_le (h n rfl)
      rw [lastUpTo, hn, List.drop_zero]

theorem mem_of_mem_lastUpTo {x : α} {xs : List α} (h : x ∈ lastUpTo limit xs) : x ∈ xs :=
  (lastUpTo_suffix xs).subset h

/-- Cutting a list before it grows makes no difference after it is cut again. -/
theorem lastUpTo_append (xs ys : List α) :
    lastUpTo limit (lastUpTo limit xs ++ ys) = lastUpTo limit (xs ++ ys) := by
  cases limit with
  | none => rfl
  | some n =>
      by_cases hn : xs.length ≤ n
      · have hkept : lastUpTo (some n) xs = xs := lastUpTo_eq_self (by simpa using hn)
        rw [hkept]
      · have hlong : xs.length - n ≤ xs.length := Nat.sub_le _ _
        have hdrop : xs.drop (xs.length - n) ++ ys = (xs ++ ys).drop (xs.length - n) :=
          (List.drop_append_of_le_length hlong).symm
        simp only [lastUpTo, hdrop, List.drop_drop, List.length_drop, List.length_append]
        congr 1
        omega

/-! A limit may be lowered, which makes no difference if there is none. -/

theorem lastUpTo_lowered_concat {k : Nat} (h : ∀ n ∈ limit, k < n) (xs : List α) (x : α) :
    lastUpTo (limit.map (· - k)) (xs ++ [x]) = lastUpTo (limit.map (· - (k + 1))) xs ++ [x] := by
  cases limit with
  | none => rfl
  | some n =>
      have hn : n - k = n - (k + 1) + 1 := by
        have hk : k < n := h n rfl
        omega
      rw [Option.map_some, Option.map_some, hn]
      exact List.rtake_concat_succ xs (n - (k + 1)) x

theorem lastUpTo_lowered_lowered (j k : Nat) (xs : List α) :
    lastUpTo (limit.map (· - j)) (lastUpTo (limit.map (· - k)) xs) =
      lastUpTo (limit.map (· - max k j)) xs := by
  cases limit with
  | none => rfl
  | some n =>
      simp only [Option.map_some, lastUpTo, List.drop_drop, List.length_drop]
      congr 1
      omega

/-- Cutting to a limit makes no difference to what a lower limit keeps. -/
theorem lastUpTo_lowered (k : Nat) (xs : List α) :
    lastUpTo (limit.map (· - k)) (lastUpTo limit xs) = lastUpTo (limit.map (· - k)) xs := by
  have h : lastUpTo (limit.map (· - k)) (lastUpTo (limit.map (· - 0)) xs) =
      lastUpTo (limit.map (· - max 0 k)) xs := lastUpTo_lowered_lowered k 0 xs
  simpa using h

theorem lastUpTo_lowered_eq (k : Nat) (xs : List α) :
    lastUpTo (limit.map (· - k)) xs =
      match limit with
      | none => xs
      | some n => xs.rtake (min xs.length (n - k)) := by
  cases limit with
  | none => rfl
  | some n =>
      have hn : xs.length - (n - k) = xs.length - min xs.length (n - k) := by omega
      exact congrArg xs.drop hn

end Cut

/-! ## Growing -/

namespace State

theorem history_pushHistory (s : State) (id : String) :
    (s.pushHistory id).history = lastUpTo s.limit (s.history ++ [id]) := rfl

theorem advanceTo_of_current {s : State} (h : s.current ≠ "") (id : String) :
    s.advanceTo id =
      { s with current := id, history := lastUpTo s.limit (s.history ++ [s.current]) } := by
  rw [advanceTo, if_pos (by simpa [hasCurrent] using h)]
  rfl

theorem popHistory?_of_concat {s : State} {ids : List String} {id : String}
    (h : s.history = ids ++ [id]) : s.popHistory? = some (id, { s with history := ids }) := by
  rw [popHistory?, h, List.getLast?_concat, List.dropLast_concat]
  rfl

theorem popHistory?_of_nil {s : State} (h : s.history = []) : s.popHistory? = none := by
  rw [popHistory?, h]
  rfl

/-- A history that is filled entry by entry is cut once. -/
theorem foldl_pushHistory (s : State) (old ids : List String) :
    ids.foldl pushHistory { s with history := lastUpTo s.limit old } =
      { s with history := lastUpTo s.limit (old ++ ids) } := by
  induction ids generalizing old with
  | nil => simp
  | cons id ids ih =>
      have hpush : pushHistory { s with history := lastUpTo s.limit old } id =
          { s with history := lastUpTo s.limit (old ++ [id]) } := by
        rw [pushHistory, lastUpTo_append]
      rw [List.foldl_cons, hpush, ih, List.append_assoc, List.singleton_append]

theorem foldl_pushHistory_of_nil {s : State} (hs : s.history = []) (ids : List String) :
    ids.foldl pushHistory s = { s with history := lastUpTo s.limit ids } := by
  have hself : { s with history := lastUpTo s.limit [] } = s := by
    rw [lastUpTo_nil, ← hs]
  have h := foldl_pushHistory s [] ids
  rw [hself, List.nil_append] at h
  exact h

/-! ## What a history holds -/

/-- The state has a given limit, keeps to it, and remembers no empty id. -/
structure Obeys (limit : Option Nat) (s : State) : Prop where
  limit_eq : s.limit = limit
  length_le : ∀ n ∈ limit, s.history.length ≤ n
  ne_empty : ∀ id ∈ s.history, id ≠ ""

namespace Obeys

variable {limit : Option Nat} {s : State}

theorem fresh (limit : Option Nat) : Obeys limit (fresh limit) where
  limit_eq := rfl
  length_le n _ := Nat.zero_le n
  ne_empty _ hid := nomatch hid

/-- Only the history and the limit matter. -/
theorem congr {s' : State} (h : Obeys limit s) (hhistory : s'.history = s.history)
    (hlimit : s'.limit = s.limit) : Obeys limit s' where
  limit_eq := hlimit.trans h.limit_eq
  length_le := hhistory ▸ h.length_le
  ne_empty := hhistory ▸ h.ne_empty

theorem setCurrent (h : Obeys limit s) (id : String) : Obeys limit (s.setCurrent id) :=
  h.congr rfl rfl

theorem setVariable (h : Obeys limit s) (name : String) (value : Int32) :
    Obeys limit (s.setVariable name value) :=
  h.congr rfl rfl

theorem reset (h : Obeys limit s) : Obeys limit s.reset := by
  rw [State.reset, h.limit_eq]
  exact fresh limit

/-- A history that is cut to the limit keeps to it. -/
theorem of_history_eq {ids : List String} (hlimit : s.limit = limit)
    (hhistory : s.history = lastUpTo limit ids) (hids : ∀ id ∈ ids, id ≠ "") :
    Obeys limit s where
  limit_eq := hlimit
  length_le n hn := by
    rw [hhistory]
    exact length_lastUpTo_le hn ids
  ne_empty id hid := by
    rw [hhistory] at hid
    exact hids id (mem_of_mem_lastUpTo hid)

theorem pushHistory (h : Obeys limit s) {id : String} (hid : id ≠ "") :
    Obeys limit (s.pushHistory id) := by
  have hids : ∀ id' ∈ s.history ++ [id], id' ≠ "" := by
    intro id' hid'
    rcases List.mem_append.mp hid' with hid' | hid'
    · exact h.ne_empty id' hid'
    · rw [List.mem_singleton.mp hid']
      exact hid
  refine of_history_eq h.limit_eq ?_ hids
  rw [history_pushHistory, h.limit_eq]

/-- An empty id is never left behind, so it does not matter whether the id that is moved to is
empty. -/
theorem advanceTo (h : Obeys limit s) (id : String) : Obeys limit (s.advanceTo id) := by
  rw [State.advanceTo]
  split
  · next hcurrent => exact (h.pushHistory (by simpa [hasCurrent] using hcurrent)).setCurrent id
  · exact h.setCurrent id

theorem popHistory {id : String} {s' : State} (h : Obeys limit s)
    (hpop : s.popHistory? = some (id, s')) : Obeys limit s' ∧ id ≠ "" := by
  obtain ⟨newest, hnewest, heq⟩ := Option.map_eq_some_iff.mp hpop
  cases heq
  have hsub : s.history.dropLast.Sublist s.history := List.dropLast_sublist s.history
  refine ⟨⟨h.limit_eq, ?_, ?_⟩, h.ne_empty id (List.mem_of_getLast? hnewest)⟩
  · intro n hn
    exact Nat.le_trans hsub.length_le (h.length_le n hn)
  · intro id' hid'
    exact h.ne_empty id' (hsub.subset hid')

/-- A history that obeys the limit loses nothing. -/
theorem history_eq (h : Obeys limit s) :
    lastUpTo limit (s.history.filter (· ≠ "")) = s.history := by
  have hfilter : s.history.filter (· ≠ "") = s.history := by
    apply List.filter_eq_self.mpr
    intro id hid
    simpa using h.ne_empty id hid
  rw [hfilter, lastUpTo_eq_self h.length_le]

end Obeys

end State

end Dialogue
