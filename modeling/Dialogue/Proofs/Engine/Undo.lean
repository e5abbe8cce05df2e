import Dialogue.Proofs.Engine.History
import Dialogue.Proofs.Engine.Nesting

/-!
# Going back

Moves forward and the moves back that take them back lead to where they started, and all that can be
missing then are the oldest entries of the history: those that a limit had to drop while the moves
were at their peak. What lies between a forward move and the move back that belongs to it leaves
the entry in between on top of the history, so going back finds it there.
-/

namespace Dialogue.Engine

open State (Obeys)

variable {files : Files} {limit : Option Nat} {e : Engine} {cs p mid : List Command} {c : Command}

/-! ## One move back -/

theorem perform_back_of_concat (hready : e.ready) {ids : List String} {id : String}
    (hhistory : e.state.history = ids ++ [id]) :
    e.perform files .back =
      .done { e with state := { e.state with current := id, history := ids } } := by
  rw [perform, back_of_concat hready hhistory]
  rfl

theorem perform_back_of_nil (hready : e.ready) (hhistory : e.state.history = []) :
    e.perform files .back = .failed e (.navigation .historyEmpty) := by
  rw [perform, back_of_nil hready hhistory]
  rfl

/-! ## One move forward -/

theorem moves_of_forward (hc : c.isForward) (hok : (e.perform files c).result = .ok ()) :
    ∃ id, Moves e id (e.perform files c).engine := by
  have heffect := (perform_atomic files e c).effect_of_ok hok
  generalize (e.perform files c).engine = e' at heffect
  cases heffect with
  | goto hmoves => exact ⟨_, hmoves⟩
  | choose _ _ hmoves => exact ⟨_, hmoves⟩
  | advance _ _ hmoves => exact ⟨_, hmoves⟩
  | _ => cases hc

/-- A ready engine with a current node, whose history keeps to the limit and holds no empty id. -/
structure Stands (limit : Option Nat) (e : Engine) : Prop where
  ready : e.ready
  current_ne : e.state.current ≠ ""
  obeys : Obeys limit e.state

/-- The forward moves of a run succeed, and each of them lands on an id that is not empty. -/
def Lands (files : Files) : Engine → List Command → Prop
  | _, [] => True
  | e, c :: cs =>
      (c.isForward → (e.perform files c).result = .ok () ∧
        (e.perform files c).engine.currentId ≠ "") ∧
      Lands files (e.perform files c).engine cs

instance decidableLands (files : Files) :
    (e : Engine) → (cs : List Command) → Decidable (Lands files e cs)
  | _, [] => .isTrue trivial
  | e, c :: cs =>
      have := decidableLands files (e.perform files c).engine cs
      inferInstanceAs (Decidable (_ ∧ _))

namespace Stands

theorem forward (h : Stands limit e) (hc : c.isForward)
    (hok : (e.perform files c).result = .ok ())
    (hlands : (e.perform files c).engine.currentId ≠ "") :
    Stands limit (e.perform files c).engine ∧
    ∃ id, (e.perform files c).engine =
      { e with state := { e.state with
        current := id
        history := lastUpTo limit (e.state.history ++ [e.state.current]) } } := by
  obtain ⟨id, hmoves⟩ := moves_of_forward hc hok
  have hstate : e.state.advanceTo id =
      { e.state with
        current := id
        history := lastUpTo limit (e.state.history ++ [e.state.current]) } := by
    simp only [State.advanceTo_of_current h.current_ne, h.obeys.limit_eq]
  have hready := hmoves.ready_after
  refine ⟨⟨hready, ?_, ?_⟩, id, ?_⟩
  · rw [currentId, if_pos hready] at hlands
    exact hlands
  · rw [hmoves.state_eq]
    exact h.obeys.advanceTo id
  · rw [hmoves.eq, hstate]

theorem back (h : Stands limit e) : Stands limit (e.perform files .back).engine := by
  rcases List.eq_nil_or_concat' e.state.history with hnil | ⟨ids, id, hconcat⟩
  · rw [perform_back_of_nil h.ready hnil]
    exact h
  · obtain ⟨hobeys, hid⟩ := h.obeys.popHistory (State.popHistory?_of_concat hconcat)
    rw [perform_back_of_concat h.ready hconcat]
    exact ⟨h.ready, hid, hobeys.setCurrent id⟩

end Stands

/-! ## Runs of moves -/

theorem lands_append {cs ds : List Command} :
    Lands files e (cs ++ ds) ↔ Lands files e cs ∧ Lands files (e.run files cs) ds := by
  induction cs generalizing e with
  | nil => exact ⟨fun h ↦ ⟨trivial, h⟩, fun h ↦ h.2⟩
  | cons c cs ih => rw [List.cons_append, Lands, ih, Lands, run_cons, and_assoc]

theorem Stands.run (h : Stands limit e) (hmoves : ∀ c ∈ cs, c.isForward ∨ c = .back)
    (hlands : Lands files e cs) : Stands limit (e.run files cs) := by
  induction cs generalizing e with
  | nil => exact h
  | cons c cs ih =>
      obtain ⟨hc, hcs⟩ := List.forall_mem_cons.mp hmoves
      have hnext : Stands limit (e.perform files c).engine := by
        rcases hc with hc | rfl
        · obtain ⟨hok, hcurrent⟩ := hlands.1 hc
          exact (h.forward hc hok hcurrent).1
        · exact h.back
      exact ih hnext hcs hlands.2

/-! ## Matched moves -/

def withHistory (e : Engine) (ids : List String) : Engine :=
  { e with state := { e.state with history := ids } }

/-- Wherever the moves start, they come back, and of the history they only leave what the limit
allows at their peak. -/
def Returns (files : Files) (limit : Option Nat) (cs : List Command) : Prop :=
  ∀ ⦃e : Engine⦄, Stands limit e → Lands files e cs → (∀ n ∈ limit, peak cs ≤ n) →
    e.run files cs = e.withHistory (lastUpTo (limit.map (· - peak cs)) e.state.history)

theorem Returns.nil : Returns files limit [] := by
  intro e h _ _
  have hhistory : lastUpTo limit e.state.history = e.state.history :=
    lastUpTo_eq_self h.obeys.length_le
  simp [hhistory, withHistory]

/-- What comes back after a forward move leaves the node before that move on top of the history, so
the next move back goes there. -/
theorem Returns.perform_back (hmid : Returns files limit mid) (h : Stands limit e)
    (hc : c.isForward) (hlands : Lands files e (c :: mid)) (hpeak : ∀ n ∈ limit, peak mid < n) :
    (e.run files (c :: mid)).perform files .back =
      .done (e.withHistory (lastUpTo (limit.map (· - (peak mid + 1))) e.state.history)) := by
  obtain ⟨hforward, hlands⟩ := hlands
  obtain ⟨hok, hcurrent⟩ := hforward hc
  obtain ⟨hstands, id, heq⟩ := h.forward hc hok hcurrent
  have hrun := hmid hstands hlands fun n hn ↦ Nat.le_of_lt (hpeak n hn)
  rw [heq] at hrun
  have hready : (e.run files (c :: mid)).ready := by
    rw [run_cons, heq, hrun]
    exact h.ready
  -- The inner moves leave room for one more entry, which is the one that the forward move left.
  have hhistory : (e.run files (c :: mid)).state.history =
      lastUpTo (limit.map (· - (peak mid + 1))) e.state.history ++ [e.state.current] := by
    rw [run_cons, heq, hrun, withHistory, lastUpTo_lowered, lastUpTo_lowered_concat hpeak]
  rw [perform_back_of_concat hready hhistory, run_cons, heq, hrun]
  rfl

theorem Returns.round (hp : Returns files limit p) (hmid : Returns files limit mid)
    (hpm : Matched p) (hc : c.isForward) (hmidm : Matched mid) :
    Returns files limit (p ++ c :: (mid ++ [.back])) := by
  intro e h hlands hpeak
  rw [peak_round hpm hc hmidm] at hpeak ⊢
  have hcs : p ++ c :: (mid ++ [.back]) = p ++ (c :: mid ++ [.back]) := rfl
  rw [hcs] at hlands ⊢
  obtain ⟨hbefore, hlands⟩ := lands_append.mp hlands
  obtain ⟨hround, -⟩ := lands_append.mp hlands
  have hfirst := hp h hbefore fun n hn ↦ Nat.le_trans (Nat.le_max_left _ _) (hpeak n hn)
  have hback := hmid.perform_back (h.run hpm.moves hbefore) hc hround
    fun n hn ↦ Nat.le_trans (Nat.le_max_right _ _) (hpeak n hn)
  rw [run_append, run_append, run_cons, hback, hfirst]
  simp [Outcome.done, withHistory, lastUpTo_lowered_lowered]

theorem Nested.returns (h : Nested cs) : Returns files limit cs := by
  induction h with
  | nil => exact .nil
  | round hpm hc hmidm hp hmid => exact hp.round hmid hpm.matched hc hmidm.matched

/-- A move back goes to the node that the move it takes back left. -/
theorem Stands.perform_back_of_takesBack (h : Stands limit e) (hcs : Matched cs)
    (hlands : Lands files e cs)
    (hlimit : ∀ n ∈ limit, ∀ p, p <+: cs → forwards p ≤ backs p + n) {before : List Command}
    (hbefore : before ++ [.back] <+: cs) (htakes : TakesBack p before) :
    ∃ ids, (e.run files before).perform files .back =
      .done ((e.run files p).withHistory ids) := by
  obtain ⟨c, mid, rfl, hc, hmid⟩ := htakes
  have hround : p ++ c :: mid <+: cs := (List.prefix_append _ _).trans hbefore
  have hp : p <+: cs := (List.prefix_append _ _).trans hround
  obtain ⟨hbeforep, hafter⟩ : Lands files e p ∧ Lands files (e.run files p) (c :: mid) := by
    obtain ⟨rest, rfl⟩ := hround
    exact lands_append.mp (lands_append.mp hlands).1
  have hstands : Stands limit (e.run files p) :=
    h.run (fun c hc ↦ hcs.moves c (hp.subset hc)) hbeforep
  -- Inside the round the forward moves are one further ahead than the inner moves alone.
  have hpeak : ∀ n ∈ limit, peak mid < n := by
    intro n hn
    refine peak_lt_iff.mpr fun r hr ↦ ?_
    have hr' : p ++ c :: r <+: cs := by
      refine List.IsPrefix.trans ?_ hround
      rw [List.prefix_append_right_inj, List.prefix_cons_inj]
      exact hr
    have hle := hlimit n hn _ hr'
    have hple := hcs.backs_le p hp
    have hrle := hmid.backs_le r hr
    rw [forwards_open hc, backs_open hc] at hle
    rw [excess]
    omega
  rw [run_append]
  exact ⟨_, hmid.nested.returns.perform_back hstands hc hafter hpeak⟩

/-! ## Moves back alone -/

theorem run_backs (files : Files) (hready : e.ready) (n : Nat) :
    (e.run files (List.replicate n .back)).ready ∧
      (e.run files (List.replicate n .back)).state.history = e.state.history.rdrop n := by
  induction n generalizing e with
  | zero => exact ⟨hready, (List.rdrop_zero _).symm⟩
  | succ n ih =>
      rw [List.replicate_succ, run_cons]
      rcases List.eq_nil_or_concat' e.state.history with hnil | ⟨ids, id, hconcat⟩
      · have hrun := ih hready
        rw [hnil, List.rdrop_nil] at hrun
        rw [perform_back_of_nil hready hnil, hnil, List.rdrop_nil]
        exact hrun
      · rw [perform_back_of_concat hready hconcat, hconcat, List.rdrop_concat_succ]
        exact ih hready

theorem canGoBack_iff (hready : e.ready) : e.canGoBack ↔ e.state.history ≠ [] := by
  simp [canGoBack, State.canGoBack, hready]

theorem perform_back_ok_iff (hready : e.ready) :
    (e.perform files .back).result = .ok () ↔ e.state.history ≠ [] := by
  rcases List.eq_nil_or_concat' e.state.history with hnil | ⟨ids, id, hconcat⟩
  · rw [perform_back_of_nil hready hnil]
    simp [hnil, Outcome.failed]
  · rw [perform_back_of_concat hready hconcat]
    simp [hconcat, Outcome.done]

theorem rdrop_ne_nil_iff {α : Type} {xs : List α} {n : Nat} : xs.rdrop n ≠ [] ↔ n < xs.length := by
  rw [← List.length_pos_iff, List.rdrop, List.length_take]
  omega

/-- Of consecutive moves back each takes the newest entry that is left. -/
theorem currentId_run_backs (files : Files) (hready : e.ready) {n : Nat}
    (hn : n < e.state.history.length) :
    e.state.history.reverse[n]? = some
      ((e.run files (List.replicate n .back)).perform files .back).engine.currentId := by
  obtain ⟨hready', hhistory⟩ := run_backs files hready n
  rcases List.eq_nil_or_concat' (e.state.history.rdrop n) with hnil | ⟨ids, id, hconcat⟩
  · exact absurd hnil (rdrop_ne_nil_iff.mpr hn)
  · have hleft : e.state.history.reverse.drop n = id :: ids.reverse := by
      rw [← List.reverse_concat, ← hconcat, List.rdrop_eq_reverse_drop_reverse,
        List.reverse_reverse]
    rw [← List.head?_drop, hleft, perform_back_of_concat hready' (hhistory.trans hconcat)]
    simp [Outcome.done, currentId, hready']

/-- Where forward moves and moves back match, and the forward moves never get further ahead than the
limit allows, each move back succeeds and goes to the node that the one move it takes back left. The
run ends where it started, and of the history nothing is missing, or with a limit the oldest entries
that did not fit in below the peak of the run. Moves back alone succeed as often as there are
entries on the history, take them from the newest on, and are possible just when the engine says
so. -/
theorem matched_moves_undone (files : Files) (hready : e.ready) :
    (Reachable e → e.currentId ≠ "" → ∀ cs, Matched cs → Lands files e cs →
      (∀ n ∈ e.settings.historyLimit, ∀ p, p <+: cs → forwards p ≤ backs p + n) →
      (∀ before, before ++ [.back] <+: cs →
        ((e.run files before).perform files .back).result = .ok () ∧
        ∃ p, (∀ p', TakesBack p' before ↔ p' = p) ∧
          (e.run files (before ++ [.back])).currentId = (e.run files p).currentId) ∧
      (e.run files cs).currentId = e.currentId ∧
      (e.run files cs).state.history =
        match e.settings.historyLimit with
        | none => e.state.history
        | some n => e.state.history.rtake (min e.state.history.length (n - peak cs))) ∧
    ∀ n,
      ((e.run files (List.replicate n .back)).canGoBack ↔ n < e.state.history.length) ∧
      (((e.run files (List.replicate n .back)).perform files .back).result = .ok () ↔
        n < e.state.history.length) ∧
      (n < e.state.history.length → e.state.history.reverse[n]? = some
        ((e.run files (List.replicate n .back)).perform files .back).engine.currentId) := by
  constructor
  · intro hreachable hcurrent cs hcs hlands hlimit
    rw [currentId, if_pos hready] at hcurrent
    have h : Stands e.settings.historyLimit e := ⟨hready, hcurrent, hreachable.obeys⟩
    have hpeak : ∀ n ∈ e.settings.historyLimit, peak cs ≤ n := fun n hn ↦
      peak_le_iff.mpr fun p hp ↦ Nat.sub_le_iff_le_add'.mpr (hlimit n hn p hp)
    have hrun := hcs.nested.returns h hlands hpeak
    refine ⟨?_, ?_, ?_⟩
    · intro before hbefore
      obtain ⟨p, hp⟩ := hcs.exists_takesBack hbefore
      obtain ⟨ids, hback⟩ := h.perform_back_of_takesBack hcs hlands hlimit hbefore hp
      rw [run_append, run_cons, run_nil, hback]
      refine ⟨rfl, p, fun p' ↦ ⟨fun hp' ↦ hp'.unique hp, ?_⟩, rfl⟩
      rintro rfl
      exact hp
    · rw [hrun]
      rfl
    · rw [hrun]
      exact lastUpTo_lowered_eq _ _
  · intro n
    obtain ⟨hready', hhistory⟩ := run_backs files hready n
    rw [canGoBack_iff hready', perform_back_ok_iff hready', hhistory, rdrop_ne_nil_iff]
    exact ⟨Iff.rfl, Iff.rfl, currentId_run_backs files hready⟩

/-- A limit of two holds the two moves that are open at the peak, and what was on the history before
is dropped for them. -/
theorem matched_moves_undone_at_limit :
    let files : Files := fun _ ↦ .error .notFound
    let script : Script := .ofNodes
      [{ id := "a", next := "b" }, { id := "b", choices := [{ next := "a" }] }]
    let e := ((Engine.new { historyLimit := some 2 }).init.install script).1.run files [.advance]
    let cs : List Command := [.choose 0, .advance, .back, .goto "a", .back, .back]
    e.state.history = ["a"] ∧ e.currentId = "b" ∧ peak cs = 2 ∧
    (e.run files cs).currentId = "b" ∧ (e.run files cs).state.history = [] ∧
    ((e.run files [.choose 0, .advance]).perform files .back).result = .ok () ∧
    ((e.run files (List.replicate 1 .back)).perform files .back).result ≠ .ok () := by
  intro files script e cs
  have hbuild : ({ settings := { historyLimit := some 2 }, script := some script } : Setup).build
      files = .ok ((Engine.new { historyLimit := some 2 }).init.install script) := rfl
  have hreachable : Reachable e := (Reachable.build hbuild).run files _
  have hready : e.ready := by decide +kernel
  have hcurrent : e.currentId ≠ "" := by decide +kernel
  have hprefixes : ∀ p ∈ cs.inits, backs p ≤ forwards p ∧ forwards p ≤ backs p + 2 := by
    decide +kernel
  have hcs : Matched cs :=
    ⟨by decide, fun p hp ↦ (hprefixes p ((List.mem_inits _ _).mpr hp)).1, rfl⟩
  have hlands : Lands files e cs := by decide +kernel
  have hlimit : e.settings.historyLimit = some 2 := by decide +kernel
  obtain ⟨hmatched, hbacks⟩ := matched_moves_undone files hready
  obtain ⟨hback, hend, hhistory⟩ := hmatched hreachable hcurrent cs hcs hlands (by
    rw [hlimit]
    rintro n ⟨⟩ p hp
    exact (hprefixes p ((List.mem_inits _ _).mpr hp)).2)
  have hpeak : peak cs = 2 := by decide +kernel
  have hcurrent' : e.currentId = "b" := by decide +kernel
  have hhistory' : e.state.history = ["a"] := by decide +kernel
  rw [hlimit, hpeak, hhistory'] at hhistory
  refine ⟨hhistory', hcurrent', hpeak, hend.trans hcurrent', hhistory, ?_, ?_⟩
  · exact (hback [.choose 0, .advance] ⟨[.goto "a", .back, .back], rfl⟩).1
  · rw [Ne, (hbacks 1).2.1, hhistory']
    decide

end Dialogue.Engine
