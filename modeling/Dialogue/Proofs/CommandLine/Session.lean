import Dialogue.CommandLine.Player
import Dialogue.Proofs.Engine.History
import Dialogue.Proofs.Engine.Lifecycle
import Dialogue.Proofs.State.Unbroken
import Dialogue.Proofs.Text.Lines

/-!
# Saving and restoring in a session

The text that a session prints for a save is one line, whatever ids and names it holds, and the
line that loads it is read as that text. An engine in a session stays ready and keeps its settings,
so whatever was typed in between, loading the text restores what was saved.
-/

namespace Dialogue.CommandLine

theorem unlines_nil : unlines [] = "" := rfl

theorem unlines_cons (line : String) (lines : List String) :
    unlines (line :: lines) = line ++ "\n" ++ unlines lines := by
  rw [unlines, List.map_cons, String.join_cons]
  rfl

namespace Player

open Engine (Reachable)

variable {e e' : Engine}

/-! ## Requests -/

/-- A text between two characters that are no white space is loaded as it stands. -/
theorem Request.ofLine_load {line : String} {text ending : List Char} {first last : Char}
    (hline : line.toList = "load ".toList ++ text ++ ending)
    (hhead : text.head? = some first) (hfirst : Text.isSpace first = false)
    (hend : text.getLast? = some last) (hlast : Text.isSpace last = false)
    (hending : ∀ c ∈ ending, Text.isSpace c) :
    ofLine line = .load (String.ofList text) := by
  have hword : Text.trim ([] ++ ("load ".toList ++ text) ++ ending) = "load ".toList ++ text := by
    refine Text.trim_append (fun _ hc ↦ nomatch hc) hending rfl rfl ?_ hlast
    rw [List.getLast?_append, hend, Option.some_or]
  have hrest : Text.trim ([' '] ++ text ++ []) = text :=
    Text.trim_append (List.forall_mem_singleton.mpr rfl) (fun _ hc ↦ nomatch hc) hhead hfirst
      hend hlast
  rw [List.append_nil] at hrest
  have hcommand : Text.Casing.lower "load".toList = "load".toList := by decide +kernel
  have htake : ("load ".toList ++ text).takeWhile (fun c ↦ !Text.isSpace c) = "load".toList := rfl
  have hdrop : ("load ".toList ++ text).dropWhile (fun c ↦ !Text.isSpace c) = [' '] ++ text := rfl
  rw [List.nil_append, ← hline] at hword
  rw [ofLine, hword, if_neg (by simp)]
  dsimp only
  rw [htake, hdrop, hcommand, hrest]
  rfl

theorem Request.ofLine_load_save {s : State} {line ending : String}
    (hline : line = "load " ++ s.save ++ ending) (hending : ∀ c ∈ ending.toList, Text.isSpace c) :
    ofLine line = .load s.save := by
  have hchars : line.toList = "load ".toList ++ s.save.toList ++ ending.toList := by
    rw [hline, String.toList_append, String.toList_append]
  rw [ofLine_load hchars s.head?_save rfl s.getLast?_save rfl hending, String.ofList_toList]

/-! ## Replies -/

/-- A reply to a request leaves the engine as it is or performs a command that does not shut it
down. -/
theorem engine_reply (files : Files) (e : Engine) (request : Request) :
    (reply e request).engine = e ∨
      ∃ c ≠ .shutdown, (reply e request).engine = (e.perform files c).engine := by
  have hmove (o : Engine.Outcome NavigationError) : (Reply.ofMove o).engine = o.engine := by
    rw [Reply.ofMove]
    split <;> rfl
  cases request with
  | next => exact .inr ⟨.advance, nofun, hmove _⟩
  | choose index => exact .inr ⟨.choose index, nofun, hmove _⟩
  | goto id => exact .inr ⟨.goto id, nofun, hmove _⟩
  | back => exact .inr ⟨.back, nofun, hmove _⟩
  | set name value =>
      refine .inr ⟨.setVariable name value, nofun, ?_⟩
      rw [reply]
      split <;> rfl
  | load text =>
      refine .inr ⟨.loadState text, nofun, ?_⟩
      rw [reply]
      split <;> rfl
  | reset =>
      refine .inr ⟨.reset, nofun, ?_⟩
      rw [reply]
      split <;> rfl
  | save =>
      left
      rw [reply]
      split <;> rfl
  | _ => exact .inl rfl

/-! ## Sessions -/

/-- The engine after a line, unless the line quits. -/
def next? (e : Engine) (line : String) : Option Engine :=
  if (reply e (Request.ofLine line)).quits then none
  else some (reply e (Request.ofLine line)).engine

/-- The engine after lines, unless one of them quits. -/
def after? (e : Engine) (lines : List String) : Option Engine := lines.foldlM next? e

theorem session_cons_of_next? {line : String} (h : next? e line = some e') (rest : List String) :
    session e (line :: rest) =
      prompt ++ unlines (reply e (Request.ofLine line)).lines ++ session e' rest := by
  rw [next?] at h
  split at h
  · cases h
  · next hquits =>
      rw [session, if_neg hquits, Option.some.inj h]

/-- What is printed for lines does not depend on those that follow. -/
theorem exists_session_append {before : List String} (h : after? e before = some e') :
    ∃ printed, ∀ rest, session e (before ++ rest) = printed ++ session e' rest := by
  induction before generalizing e with
  | nil =>
      obtain rfl : e = e' := Option.some.inj h
      exact ⟨"", fun rest ↦ (String.empty_append).symm⟩
  | cons line before ih =>
      rw [after?, List.foldlM_cons] at h
      obtain ⟨e₁, hnext, hafter⟩ := Option.bind_eq_some_iff.mp h
      obtain ⟨printed, hprinted⟩ := ih hafter
      refine ⟨prompt ++ unlines (reply e (Request.ofLine line)).lines ++ printed, fun rest ↦ ?_⟩
      rw [List.cons_append, session_cons_of_next? hnext, hprinted]
      simp only [String.append_assoc]

/-- What a session does not change: its engine is one that commands lead to, it is ready, and it has
the settings that it started with. -/
structure Lasting (settings : Settings) (e : Engine) : Prop where
  reachable : Reachable e
  ready : e.ready
  settings_eq : e.settings = settings

/-- A session starts with an engine that a setup builds. -/
theorem exists_build_of_start {files : Files} {args greeting : List String}
    {read : Settings.Reader} (h : start files args read = .ok (greeting, e)) :
    ∃ (setup : Engine.Setup) (warnings : List Warning),
      setup.build files read = .ok (e, warnings) := by
  rw [start.eq_def] at h
  split at h
  · cases h
  · split at h
    · cases h
    · split at h
      · cases h
      · dsimp only at h
        split at h
        · cases h
        · next hbuild =>
            cases h
            exact ⟨_, _, hbuild⟩

theorem lasting_of_build {setup : Engine.Setup} {files : Files} {read : Settings.Reader}
    {warnings : List Warning} (h : setup.build files read = .ok (e, warnings)) :
    Lasting e.settings e where
  reachable := .build h
  ready := by
    obtain ⟨settings, ⟨-, rfl⟩ | ⟨script, -, rfl⟩⟩ := Engine.build_cases h <;> rfl
  settings_eq := rfl

theorem Lasting.next (files : Files) {settings : Settings} (h : Lasting settings e) {line : String}
    (hnext : next? e line = some e') : Lasting settings e' := by
  rw [next?] at hnext
  split at hnext
  · cases hnext
  · obtain rfl := Option.some.inj hnext
    rcases engine_reply files e (Request.ofLine line) with hsame | ⟨c, hc, hperform⟩
    · rw [hsame]
      exact h
    · rw [hperform]
      exact ⟨h.reachable.perform files c, Engine.ready_perform h.ready hc,
        (Engine.settings_perform c).trans h.settings_eq⟩

theorem Lasting.after (files : Files) {settings : Settings} (h : Lasting settings e)
    {lines : List String} (hafter : after? e lines = some e') : Lasting settings e' := by
  induction lines generalizing e with
  | nil =>
      obtain rfl : e = e' := Option.some.inj hafter
      exact h
  | cons line lines ih =>
      rw [after?, List.foldlM_cons] at hafter
      obtain ⟨e₁, hnext, hrest⟩ := Option.bind_eq_some_iff.mp hafter
      exact ih (h.next files hnext) hrest

/-! ## Saving and loading -/

theorem session_save (hready : e.ready) {line : String} (hline : Request.ofLine line = .save)
    (rest : List String) :
    session e (line :: rest) = prompt ++ e.state.save ++ "\n" ++ session e rest := by
  have hreply : reply e (Request.ofLine line) = { lines := [e.state.save], engine := e } := by
    rw [hline, reply, Engine.save, if_pos hready]
  have hnext : next? e line = some e := by
    rw [next?, hreply]
    rfl
  rw [session_cons_of_next? hnext, hreply, unlines_cons]
  simp only [unlines_nil, String.append_assoc, String.append_empty]

theorem session_load {text line : String} (hload : e.loadState text = .done e')
    (hline : Request.ofLine line = .load text) :
    after? e [line] = some e' ∧
    ∀ rest, session e (line :: rest) =
      prompt ++ "State restored.\n" ++ unlines (view e') ++ session e' rest := by
  have hreply : reply e (Request.ofLine line) =
      { lines := "State restored." :: view e', engine := e' } := by
    rw [hline, reply, hload]
    rfl
  have hnext : next? e line = some e' := by
    rw [next?, hreply]
    rfl
  refine ⟨by rw [after?, List.foldlM_cons, hnext]; rfl, fun rest ↦ ?_⟩
  rw [session_cons_of_next? hnext, hreply, unlines_cons]
  simp only [String.append_assoc]
  rfl

/-- One engine of a session restores what another saved. -/
theorem Lasting.exists_loadState {settings : Settings} (h : Lasting settings e)
    (h' : Lasting settings e') : ∃ restored, e'.loadState e.state.save = .done restored ∧
      restored.state.values = e.state.values ∧ restored.state.history = e.state.history ∧
      (e.state.current ≠ "" → restored.state.current = e.state.current) := by
  have hobeys := h.reachable.obeys
  have hlimit : e'.state.limit = e.state.limit := by
    rw [h'.reachable.obeys.limit_eq, h'.settings_eq, hobeys.limit_eq, h.settings_eq]
  exact ⟨_, Engine.loadState_save hobeys h'.ready hlimit, rfl, rfl, fun hcurrent ↦ if_neg hcurrent⟩

/-- What a session prints for a save is one line without line breaks. Whenever that text is typed
after the load command later in the same session, however the session goes on in between, it is read
as one line and restores the variables and the history of the moment of saving, and the current id
unless it was empty. -/
theorem save_restored_later {files : Files} {args greeting : List String} {read : Settings.Reader}
    {e₀ : Engine} (hstart : start files args read = .ok (greeting, e₀)) {before : List String}
    (hbefore : after? e₀ before = some e) :
    ∃ text : String,
      ('\n' ∉ text.toList ∧ '\r' ∉ text.toList) ∧
      (∃ printed, ∀ rest,
        (run files args (before ++ rest) read).stdout = printed ++ session e rest) ∧
      (∀ line rest, Request.ofLine line = .save →
        session e (line :: rest) = prompt ++ text ++ "\n" ++ session e rest) ∧
      Text.OneLine ("load " ++ text) ∧
      ∀ (between : List String) (e' : Engine), after? e between = some e' →
        (∃ printed, ∀ rest, session e (between ++ rest) = printed ++ session e' rest) ∧
        ∃ restored : Engine,
          restored.state.values = e.state.values ∧
          restored.state.history = e.state.history ∧
          (e.state.current ≠ "" → restored.state.current = e.state.current) ∧
          ∀ line ∈ ["load " ++ text, "load " ++ text ++ "\n"],
            after? e' [line] = some restored ∧
            ∀ rest, session e' (line :: rest) =
              prompt ++ "State restored.\n" ++ unlines (view restored) ++
                session restored rest := by
  obtain ⟨setup, warnings, hbuild⟩ := exists_build_of_start hstart
  have hlasting : Lasting e₀.settings e := (lasting_of_build hbuild).after files hbefore
  have hunbroken := State.unbroken_save e.state
  have hfeed : '\n' ∉ e.state.save.toList := fun h ↦ (hunbroken _ h).1 rfl
  have hreturn : '\r' ∉ e.state.save.toList := fun h ↦ (hunbroken _ h).2 rfl
  refine ⟨e.state.save, ⟨hfeed, hreturn⟩, ?_, ?_, ?_, ?_⟩
  · obtain ⟨printed, hprinted⟩ := exists_session_append hbefore
    refine ⟨unlines greeting ++ printed, fun rest ↦ ?_⟩
    rw [run, hstart, String.append_assoc, ← hprinted]
  · intro line rest hline
    exact session_save hlasting.ready hline rest
  · refine Text.oneLine_of_notMem ?_ ?_
    · simpa [String.toList_append] using hfeed
    · simp
  · intro between e' hbetween
    refine ⟨exists_session_append hbetween, ?_⟩
    obtain ⟨restored, hload, hvalues, hhistory, hcurrent⟩ :=
      hlasting.exists_loadState (hlasting.after files hbetween)
    refine ⟨restored, hvalues, hhistory, hcurrent, fun line hline ↦ session_load hload ?_⟩
    simp only [List.mem_cons, List.not_mem_nil, or_false] at hline
    rcases hline with rfl | rfl
    · exact Request.ofLine_load_save (String.append_empty).symm (by simp)
    · exact Request.ofLine_load_save rfl (List.forall_mem_singleton.mpr rfl)

/-- Line breaks, a line separator, quotes and white space at the ends, all of them from a text that
was loaded before. -/
theorem save_restored_later_hostile :
    let files : Files := fun path ↦
      .ok (if path = "c" then "(history_limit: Some(2))"
        else "\x7b\"nodes\":[\x7b\"id\":\"a\"\x7d]\x7d")
    let args := ["s", "--config", "c"]
    let hostile := "LOAD \u00a0\x7b\"currentNode\":\" b\\n\u2028\\\"\"," ++
      "\"variables\":\x7b\"\\rn \":7\x7d,\"history\":[\"w\",\"\",\"x\\r\\n\",\" y\\\\\"]\x7d\r\n"
    ∃ greeting e₀ e e' restored text, start files args = .ok (greeting, e₀) ∧
      after? e₀ [hostile] = some e ∧ ('\n' ∉ text.toList ∧ '\r' ∉ text.toList) ∧
      (∀ rest, session e (" Save\n" :: rest) = prompt ++ text ++ "\n" ++ session e rest) ∧
      after? e ["reset\n", "goto a\n"] = some e' ∧ e'.state.history = [] ∧
      after? e' ["load " ++ text ++ "\n"] = some restored ∧
      restored.state.values = .ofList [("\rn ", 7)] ∧
      restored.state.history = ["x\r\n", " y\\"] ∧ restored.state.current = " b\n\u2028\"" := by
  intro files args hostile
  let e₀ := ((Engine.new { historyLimit := some 2 }).init.install (.start { id := "a" })).1
  let e := { e₀ with state :=
    { current := " b\n\u2028\"", history := ["x\r\n", " y\\"], values := .ofList [("\rn ", 7)]
      limit := some 2 } }
  let e' := { e with state := { current := "a", limit := some 2 } }
  have hstart : start files args =
      .ok (["Loaded 1 nodes from s", "Type 'help' for commands.", ""] ++ view e₀, e₀) := by
    decide +kernel
  have hbefore : after? e₀ [hostile] = some e := by decide +kernel
  have hbetween : after? e ["reset\n", "goto a\n"] = some e' := by decide +kernel
  obtain ⟨text, hbreaks, -, hsave, -, hload⟩ := save_restored_later hstart hbefore
  obtain ⟨-, restored, hvalues, hhistory, hcurrent, hlines⟩ := hload _ e' hbetween
  have hline := hlines ("load " ++ text ++ "\n") (by simp)
  exact ⟨_, e₀, e, e', restored, text, hstart, hbefore, hbreaks,
    fun rest ↦ hsave _ rest (by decide +kernel), hbetween, rfl, hline.1, hvalues, hhistory,
    hcurrent (by decide)⟩

end Player

end Dialogue.CommandLine
