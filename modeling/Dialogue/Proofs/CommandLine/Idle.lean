import Dialogue.Proofs.CommandLine.Session

/-!
# Lines that change nothing

A line that only shows something, that is not understood, or that asks for something that fails
leaves the session where it is. So it can be taken out of the input: its prompt and its reply are
missing from the output then, and all that was printed before and after them is the same.
-/

namespace Dialogue.CommandLine.Player

variable {e : Engine}

/-! ## Requests -/

/-- The requests that change nothing: those that show, those that are not understood or not meant,
and those that fail. -/
inductive Idle (e : Engine) : Request → Prop
  | blank : Idle e .blank
  | look : Idle e .look
  | help : Idle e .help
  | get (name : String) : Idle e (.get name)
  | save : Idle e .save
  | unknown (command : String) : Idle e (.unknown command)
  | misused (usage : String) : Idle e (.misused usage)
  | next {error : NavigationError} : e.advance.result = .error error → Idle e .next
  | choose {index : Nat} {error : NavigationError} :
      (e.choose index).result = .error error → Idle e (.choose index)
  | goto {id : String} {error : NavigationError} :
      (e.goto id).result = .error error → Idle e (.goto id)
  | back {error : NavigationError} : e.back.result = .error error → Idle e .back
  | set {name : String} {value : Int32} {error : NavigationError} :
      (e.setVariable name value).result = .error error → Idle e (.set name value)
  | load {text : String} {error : EngineError} :
      (e.loadState text).result = .error error → Idle e (.load text)
  | reset {error : NavigationError} : e.reset.result = .error error → Idle e .reset

/-- The session goes on after the reply, and with the engine that it had. -/
structure Reply.Keeps (r : Reply) (e : Engine) : Prop where
  engine_eq : r.engine = e
  not_quits : ¬r.quits

theorem Reply.keeps_ofMove {o : Engine.Outcome NavigationError} {effect : Engine → Prop}
    (h : o.Atomic e effect) {error : NavigationError} (herror : o.result = .error error) :
    (Reply.ofMove o).Keeps e := by
  rw [Reply.ofMove, herror]
  exact ⟨h.engine_eq herror, Bool.false_ne_true⟩

theorem Idle.keeps_reply {request : Request} (h : Idle e request) : (reply e request).Keeps e := by
  cases h with
  | next herror => exact Reply.keeps_ofMove (Engine.advance_atomic e) herror
  | choose herror => exact Reply.keeps_ofMove (Engine.choose_atomic e _) herror
  | goto herror => exact Reply.keeps_ofMove (Engine.goto_atomic e _) herror
  | back herror => exact Reply.keeps_ofMove (Engine.back_atomic e) herror
  | set herror =>
      rw [reply, herror]
      exact ⟨(Engine.setVariable_atomic e _ _).engine_eq herror, Bool.false_ne_true⟩
  | load herror =>
      rw [reply, herror]
      exact ⟨(Engine.loadState_atomic e _).engine_eq herror, Bool.false_ne_true⟩
  | reset herror =>
      rw [reply, herror]
      exact ⟨(Engine.reset_atomic e).engine_eq herror, Bool.false_ne_true⟩
  | save =>
      rw [reply]
      split
      · exact ⟨rfl, Bool.false_ne_true⟩
      · exact ⟨rfl, Bool.false_ne_true⟩
  | _ => exact ⟨rfl, Bool.false_ne_true⟩

/-! ## Sessions -/

theorem Idle.next?_eq {line : String} (h : Idle e (Request.ofLine line)) :
    next? e line = some e := by
  obtain ⟨hengine, hquits⟩ := h.keeps_reply
  rw [next?, if_neg hquits, hengine]

/-- An idle request may be typed at any point of a session, on a line that is ended. If that line is
taken out of the input, the output is what it was but for the prompt of the line and its reply: what
was printed before it, and all that the session prints after it, is the same. -/
theorem Idle.run_without {files : Files} {args greeting : List String} {read : Settings.Reader}
    {e₀ : Engine} (hstart : start files args read = .ok (greeting, e₀)) {input : ByteArray}
    {before after : List String} {line : String}
    (hinput : Text.lines input = before ++ line :: after) (hline : Text.EndsLine line)
    (hbefore : after? e₀ before = some e) (hidle : Idle e (Request.ofLine line)) :
    ∃ rest printed,
      input = (String.join before).toUTF8 ++ (line.toUTF8 ++ rest) ∧
      (∀ more, run files args (before ++ more) read = { stdout := printed ++ session e more }) ∧
      run files args (Text.lines input) read =
        { stdout := printed ++ (prompt ++ unlines (reply e (Request.ofLine line)).lines) ++
            session e after } ∧
      run files args (Text.lines ((String.join before).toUTF8 ++ rest)) read =
        { stdout := printed ++ session e after } := by
  obtain ⟨hended, rest, hsplit, hrest⟩ := Text.exists_rest_of_lines hinput hline
  obtain ⟨printed, hprinted⟩ := exists_session_append hbefore
  have hrun (more : List String) :
      run files args (before ++ more) read =
        { stdout := unlines greeting ++ printed ++ session e more } := by
    rw [run, hstart, String.append_assoc, ← hprinted]
  refine ⟨rest, unlines greeting ++ printed, hsplit, hrun, ?_, ?_⟩
  · rw [hinput, hrun, session_cons_of_next? hidle.next?_eq]
    simp only [String.append_assoc]
  · rw [Text.lines_join hended, hrest, hrun]

/-- A move to a node that is not there, typed between two lines of which the second is not ended. -/
theorem Idle.run_without_lost :
    let files : Files := fun _ ↦ .ok "\x7b\"nodes\":[\x7b\"id\":\"a\"\x7d]\x7d"
    let input := "set x 1\n\u00a0GoTo  b c \r\nget x".toUTF8
    let e₀ := ((Engine.new {}).init.install (.start { id := "a" })).1
    let e := { e₀ with state := e₀.state.setVariable "x" 1 }
    ∃ rest printed,
      input = "set x 1\n".toUTF8 ++ ("\u00a0GoTo  b c \r\n".toUTF8 ++ rest) ∧
      run files ["s"] (Text.lines input) =
        { stdout := printed ++ "player> ERROR: no node with id 'b c'\n" ++
            session e ["get x"] } ∧
      run files ["s"] (Text.lines ("set x 1\n".toUTF8 ++ rest)) =
        { stdout := printed ++ session e ["get x"] } := by
  intro files input e₀ e
  let first := "set x 1\n"
  let line := "\u00a0GoTo  b c \r\n"
  have hstart : start files ["s"] =
      .ok (["Loaded 1 nodes from s", "Type 'help' for commands.", ""] ++ view e₀, e₀) := by
    decide +kernel
  have hfirst : Text.EndsLine first := ⟨"set x 1", rfl, by decide⟩
  have hline : Text.EndsLine line := ⟨"\u00a0GoTo  b c \r", rfl, by decide⟩
  have hinput : Text.lines input = [first] ++ line :: ["get x"] := by
    have hbytes : input = (String.join [first, line]).toUTF8 ++ "get x".toUTF8 := rfl
    rw [hbytes, Text.lines_join (by simp [hfirst, hline]),
      Text.lines_of_last (by decide) (by decide)]
    rfl
  have hbefore : after? e₀ [first] = some e := by decide +kernel
  have hrequest : Request.ofLine line = .goto "b c" := by decide +kernel
  have hfails : (e.goto "b c").result = .error (.unknownNode "b c") := by decide +kernel
  have hidle : Idle e (Request.ofLine line) := by
    rw [hrequest]
    exact .goto hfails
  obtain ⟨rest, printed, hsplit, -, hwith, hwithout⟩ :=
    hidle.run_without hstart hinput hline hbefore
  have hreply : prompt ++ unlines (reply e (Request.ofLine line)).lines =
      "player> ERROR: no node with id 'b c'\n" := by
    decide +kernel
  rw [hreply] at hwith
  exact ⟨rest, printed, hsplit, hwith, hwithout⟩

end Dialogue.CommandLine.Player
