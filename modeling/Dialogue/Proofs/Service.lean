/-!
# Services

A service answers requests one after another, and each may change its state. A request that is
refused leaves the state as it is, so a run without its refused requests is the same run: it ends in
the same state, and the requests that are left get the answers that they got.
-/

namespace Dialogue

/-- A state that requests move on, with what each of them is answered. -/
structure Service (σ α β : Type) where
  next : σ → α → σ
  answer : σ → α → β
  refuses : σ → α → Bool
  next_of_refuses : ∀ {s : σ} {a : α}, refuses s a → next s a = s

namespace Service

variable {σ α β : Type} (S : Service σ α β)

/-- One request of a run. -/
structure Entry (α β : Type) where
  request : α
  answer : β
  refused : Bool

/-- The state after a list of requests, refused ones included. -/
def after : σ → List α → σ := List.foldl S.next

/-- What happens to a list of requests, one after another. -/
def log (s : σ) : List α → List (Entry α β)
  | [] => []
  | a :: as => ⟨a, S.answer s a, S.refuses s a⟩ :: log (S.next s a) as

/-- The requests of a run that are not refused. -/
def granted (s : σ) (as : List α) : List α :=
  ((S.log s as).filter (!·.refused)).map Entry.request

@[simp] theorem after_nil (s : σ) : S.after s [] = s := rfl

@[simp] theorem after_cons (s : σ) (a : α) (as : List α) :
    S.after s (a :: as) = S.after (S.next s a) as := rfl

@[simp] theorem log_nil (s : σ) : S.log s [] = [] := rfl

@[simp] theorem log_cons (s : σ) (a : α) (as : List α) :
    S.log s (a :: as) = ⟨a, S.answer s a, S.refuses s a⟩ :: S.log (S.next s a) as := rfl

variable {S}

theorem granted_cons_of_refuses {s : σ} {a : α} (h : S.refuses s a) (as : List α) :
    S.granted s (a :: as) = S.granted s as := by
  rw [granted, log_cons, S.next_of_refuses h, List.filter_cons_of_neg (by simp [h])]
  rfl

theorem granted_cons_of_not_refuses {s : σ} {a : α} (h : ¬S.refuses s a) (as : List α) :
    S.granted s (a :: as) = a :: S.granted (S.next s a) as := by
  rw [granted, log_cons, List.filter_cons_of_pos (by simpa using h)]
  rfl

theorem after_granted (s : σ) (as : List α) : S.after s (S.granted s as) = S.after s as := by
  -- Of a refused request nothing is left on the left, and on the right a step that stays in place.
  induction as generalizing s with
  | nil => rfl
  | cons a as ih =>
      by_cases h : S.refuses s a
      · rw [granted_cons_of_refuses h, ih, after_cons, S.next_of_refuses h]
      · rw [granted_cons_of_not_refuses h, after_cons, ih, after_cons]

theorem log_granted (s : σ) (as : List α) :
    S.log s (S.granted s as) = (S.log s as).filter (!·.refused) := by
  induction as generalizing s with
  | nil => rfl
  | cons a as ih =>
      by_cases h : S.refuses s a
      · rw [granted_cons_of_refuses h, ih, log_cons, S.next_of_refuses h,
          List.filter_cons_of_neg (by simp [h])]
      · rw [granted_cons_of_not_refuses h, log_cons, ih, log_cons,
          List.filter_cons_of_pos (by simpa using h)]

/-- Whatever entry a run logs was made in a state that the run comes through. -/
theorem exists_of_mem_log {s : σ} {as : List α} {entry : Entry α β} (h : entry ∈ S.log s as) :
    ∃ before rest, as = before ++ entry.request :: rest ∧
      entry.answer = S.answer (S.after s before) entry.request := by
  induction as generalizing s with
  | nil => cases h
  | cons a as ih =>
      rw [log_cons] at h
      rcases List.mem_cons.mp h with rfl | h
      · exact ⟨[], as, rfl, rfl⟩
      · obtain ⟨before, rest, rfl, hanswer⟩ := ih h
        exact ⟨a :: before, rest, rfl, hanswer⟩

end Service

end Dialogue
