import Dialogue.Engine.Command
import Mathlib.Data.List.Infix

/-!
# Nested moves

Forward moves and moves back are like opening and closing brackets. In a list of moves that is
matched, every move back takes back one forward move before it, and what lies between the two is
matched again. So matched lists are the nested ones, and facts about them go by induction on the
nesting.
-/

namespace Dialogue.Engine

/-- Whether a command is a move that leaves its node behind on the history. -/
def Command.isForward : Command → Bool
  | .goto _ | .choose _ | .advance => true
  | _ => false

variable {cs p mid : List Command} {c : Command}

/-! ## Counting -/

def forwards (cs : List Command) : Nat := cs.countP Command.isForward

def backs (cs : List Command) : Nat := cs.count .back

/-- By how much the forward moves outnumber the moves back. -/
def excess (cs : List Command) : Nat := forwards cs - backs cs

/-- The largest excess on the way. -/
def peak (cs : List Command) : Nat :=
  (cs.inits.map excess).max (by simp [← List.length_pos_iff])

@[simp] theorem forwards_append (cs ds : List Command) :
    forwards (cs ++ ds) = forwards cs + forwards ds := List.countP_append

@[simp] theorem backs_append (cs ds : List Command) : backs (cs ++ ds) = backs cs + backs ds :=
  List.count_append

@[simp] theorem forwards_back : forwards [.back] = 0 := rfl

@[simp] theorem backs_back : backs [.back] = 1 := rfl

theorem forwards_open (hc : c.isForward) (p mid : List Command) :
    forwards (p ++ c :: mid) = forwards p + (forwards mid + 1) := by
  rw [forwards_append]
  exact congrArg _ (List.countP_cons_of_pos hc)

theorem backs_open (hc : c.isForward) (p mid : List Command) :
    backs (p ++ c :: mid) = backs p + backs mid := by
  have hback : c ≠ .back := by
    rintro rfl
    cases hc
  rw [backs_append]
  exact congrArg _ (List.count_cons_of_ne hback)

theorem peak_le_iff {n : Nat} : peak cs ≤ n ↔ ∀ p, p <+: cs → excess p ≤ n := by
  simp [peak, List.max_le_iff]

theorem peak_lt_iff {n : Nat} : peak cs < n ↔ ∀ p, p <+: cs → excess p < n := by
  constructor
  · intro h p hp
    exact Nat.lt_of_le_of_lt (peak_le_iff.mp (Nat.le_refl _) p hp) h
  · intro h
    have hpos : 0 < n := h [] List.nil_prefix
    have hpeak : peak cs ≤ n - 1 := peak_le_iff.mpr fun p hp ↦ Nat.le_sub_one_of_lt (h p hp)
    omega

@[simp] theorem peak_nil : peak [] = 0 := rfl

/-! ## Matched and nested -/

/-- Moves that go back at most as often as they went forward, at every point, and as often in the
end. -/
structure Matched (cs : List Command) : Prop where
  moves : ∀ c ∈ cs, c.isForward ∨ c = .back
  backs_le : ∀ p, p <+: cs → backs p ≤ forwards p
  backs_eq : backs cs = forwards cs

/-- The forward move after the commands `p` is what a move back after `before` takes back. -/
def TakesBack (p before : List Command) : Prop :=
  ∃ c mid, before = p ++ c :: mid ∧ c.isForward ∧ Matched mid

/-- Lists of moves that end with a move back, which takes back the forward move before a nested
list. -/
inductive Nested : List Command → Prop
  | nil : Nested []
  | round {p mid : List Command} {c : Command} :
      Nested p → c.isForward → Nested mid → Nested (p ++ c :: (mid ++ [.back]))

/-- A prefix of a round ends before it, inside it, or with it. -/
theorem prefix_round_iff {q : List Command} :
    q <+: p ++ c :: (mid ++ [.back]) ↔
      q <+: p ∨ (∃ r, r <+: mid ∧ q = p ++ c :: r) ∨ q = p ++ c :: (mid ++ [.back]) := by
  constructor
  · intro hq
    rcases List.prefix_or_prefix_of_prefix hq (List.prefix_append _ _) with hq' | ⟨r, rfl⟩
    · exact .inl hq'
    · rcases List.prefix_cons_iff.mp ((List.prefix_append_right_inj p).mp hq) with
        rfl | ⟨r, rfl, hr⟩
      · simp
      · rcases List.prefix_concat_iff.mp hr with rfl | hr
        · exact .inr (.inr rfl)
        · exact .inr (.inl ⟨r, hr, rfl⟩)
  · rintro (hq | ⟨r, hr, rfl⟩ | rfl)
    · exact hq.trans (List.prefix_append _ _)
    · rw [List.prefix_append_right_inj, List.prefix_cons_inj]
      exact hr.trans (List.prefix_append _ _)
    · exact List.prefix_rfl

theorem Matched.nil : Matched [] where
  moves _ hc := nomatch hc
  backs_le q hq := by rw [List.prefix_nil.mp hq]; exact Nat.le_refl 0
  backs_eq := rfl

theorem Matched.round (hp : Matched p) (hc : c.isForward) (hmid : Matched mid) :
    Matched (p ++ c :: (mid ++ [.back])) where
  moves d hd := by
    simp only [List.mem_append, List.mem_cons, List.not_mem_nil, or_false] at hd
    rcases hd with hd | rfl | hd | rfl
    · exact hp.moves d hd
    · exact .inl hc
    · exact hmid.moves d hd
    · exact .inr rfl
  backs_le q hq := by
    have hpeq := hp.backs_eq
    have hmideq := hmid.backs_eq
    rcases prefix_round_iff.mp hq with hq | ⟨r, hr, rfl⟩ | rfl
    · exact hp.backs_le q hq
    · have hrle := hmid.backs_le r hr
      rw [forwards_open hc, backs_open hc]
      omega
    · simp only [forwards_open hc, backs_open hc, forwards_append, backs_append, forwards_back,
        backs_back]
      omega
  backs_eq := by
    have hpeq := hp.backs_eq
    have hmideq := hmid.backs_eq
    simp only [forwards_open hc, backs_open hc, forwards_append, backs_append, forwards_back,
      backs_back]
    omega

theorem Nested.matched (h : Nested cs) : Matched cs := by
  induction h with
  | nil => exact .nil
  | round _ hc _ hp hmid => exact hp.round hc hmid

/-- Moves that never go back too often are nested, up to a last forward move that is not taken
back. -/
theorem nested_or_open (hmoves : ∀ c ∈ cs, c.isForward ∨ c = .back)
    (hbacks : ∀ p, p <+: cs → backs p ≤ forwards p) :
    Nested cs ∨ ∃ p c mid, cs = p ++ c :: mid ∧ c.isForward ∧ Nested mid := by
  -- A move back closes what is open before it, and then the list before that decides.
  induction hn : cs.length using Nat.strong_induction_on generalizing cs with
  | _ n ih =>
      have hshorter {q : List Command} (hq : q <+: cs) (hlt : q.length < n) :=
        ih q.length hlt (fun c hc ↦ hmoves c (hq.subset hc))
          (fun p hp ↦ hbacks p (hp.trans hq)) rfl
      rcases List.eq_nil_or_concat' cs with rfl | ⟨q, c, rfl⟩
      · exact .inl .nil
      · rw [List.length_append, List.length_singleton] at hn
        have hq : q <+: q ++ [c] := List.prefix_append _ _
        rcases hmoves c (by simp) with hc | rfl
        · exact .inr ⟨q, c, [], rfl, hc, .nil⟩
        · rcases hshorter hq (by omega) with hnested | ⟨p, c, mid, rfl, hc, hmid⟩
          · have hle := hbacks _ List.prefix_rfl
            have heq := hnested.matched.backs_eq
            simp only [backs_append, forwards_append, backs_back, forwards_back] at hle
            omega
          · have hp : p <+: p ++ c :: mid := List.prefix_append _ _
            rw [List.length_append] at hn
            rcases hshorter (hp.trans hq) (by omega) with hnested | ⟨p, d, mid', rfl, hd, hmid'⟩
            · left
              simpa using Nested.round hnested hc hmid
            · right
              refine ⟨p, d, mid' ++ c :: (mid ++ [.back]), by simp, hd, hmid'.round hc hmid⟩

theorem Matched.nested (h : Matched cs) : Nested cs := by
  rcases nested_or_open h.moves h.backs_le with hnested | ⟨p, c, mid, rfl, hc, hmid⟩
  · exact hnested
  · have hle := h.backs_le p (List.prefix_append _ _)
    have heq := h.backs_eq
    have hmideq := hmid.matched.backs_eq
    rw [forwards_open hc, backs_open hc] at heq
    omega

/-! ## What a move back takes back -/

theorem TakesBack.unique {p p' before : List Command} (h : TakesBack p before)
    (h' : TakesBack p' before) : p = p' := by
  -- The longer of the two would end inside what the shorter one leaves matched.
  have hnested {q mid mid' : List Command} {c d : Command} (hcs : c :: mid = q ++ d :: mid')
      (hd : d.isForward) (hmid : Matched mid) (hmid' : Matched mid') : q = [] := by
    cases q with
    | nil => rfl
    | cons c' q =>
        rw [List.cons_append, List.cons_eq_cons] at hcs
        obtain ⟨-, rfl⟩ := hcs
        have hle := hmid.backs_le q (List.prefix_append _ _)
        have heq := hmid.backs_eq
        have heq' := hmid'.backs_eq
        rw [forwards_open hd, backs_open hd] at heq
        omega
  obtain ⟨c, mid, rfl, hc, hmid⟩ := h
  obtain ⟨d, mid', hbefore, hd, hmid'⟩ := h'
  rcases List.append_eq_append_iff.mp hbefore with ⟨q, hp, hrest⟩ | ⟨q, hp, hrest⟩
  · rw [hp, hnested hrest hd hmid hmid', List.append_nil]
  · rw [hp, hnested hrest hc hmid' hmid, List.append_nil]

theorem Matched.exists_takesBack {before : List Command} (h : Matched cs)
    (hbefore : before ++ [.back] <+: cs) : ∃ p, TakesBack p before := by
  have hle : before <+: cs := (List.prefix_append _ _).trans hbefore
  rcases nested_or_open (fun c hc ↦ h.moves c (hle.subset hc))
    (fun p hp ↦ h.backs_le p (hp.trans hle)) with hnested | ⟨p, c, mid, heq, hc, hmid⟩
  · have hle := h.backs_le _ hbefore
    have heq := hnested.matched.backs_eq
    simp only [backs_append, forwards_append, backs_back, forwards_back] at hle
    omega
  · exact ⟨p, c, mid, heq, hc, hmid.matched⟩

/-! ## Peaks -/

/-- A forward move that goes on from where the list before it comes back to climbs by one more
than what is nested in it. -/
theorem peak_round (hp : Matched p) (hc : c.isForward) (hmid : Matched mid) :
    peak (p ++ c :: (mid ++ [.back])) = max (peak p) (peak mid + 1) := by
  have hpeq := hp.backs_eq
  have hmideq := hmid.backs_eq
  have hinside {r : List Command} (hr : r <+: mid) : excess (p ++ c :: r) = excess r + 1 := by
    have hle := hmid.backs_le r hr
    rw [excess, excess, forwards_open hc, backs_open hc]
    omega
  have hend : excess (p ++ c :: (mid ++ [.back])) = 0 := by
    rw [excess, (hp.round hc hmid).backs_eq, Nat.sub_self]
  apply eq_of_forall_ge_iff
  intro n
  rw [Nat.max_le, Nat.succ_le_iff, peak_le_iff, peak_le_iff, peak_lt_iff]
  constructor
  · intro h
    refine ⟨fun q hq ↦ h q (prefix_round_iff.mpr (.inl hq)), fun r hr ↦ ?_⟩
    rw [← Nat.succ_le_iff, Nat.succ_eq_add_one, ← hinside hr]
    exact h _ (prefix_round_iff.mpr (.inr (.inl ⟨r, hr, rfl⟩)))
  · rintro ⟨hbefore, hmid⟩ q hq
    rcases prefix_round_iff.mp hq with hq | ⟨r, hr, rfl⟩ | rfl
    · exact hbefore q hq
    · rw [hinside hr]
      exact hmid r hr
    · rw [hend]
      exact Nat.zero_le n

end Dialogue.Engine
