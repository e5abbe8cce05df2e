import Dialogue.CommandLine.Linter
import Dialogue.Engine.Setup
import Dialogue.Proofs.Engine.Links

/-!
# What the linter counts

A link is broken if following it, once its node is the current one, leads to an unknown node. The
links that a script lists as dangling are just those, so what the linter counts without playing is
what every engine that plays the scripts would run into.
-/

namespace Dialogue

/-! ## Broken links -/

/-- Which links a node has: the next link, if it is set, and one for each choice. -/
def Node.outgoing (n : Node) : List Script.Link :=
  (if n.hasNext then [.next] else []) ++ (List.range n.choices.length).map .choice

theorem Node.map_fst_links (n : Node) : n.links.map (·.1) = n.outgoing := by
  rw [links, outgoing, List.map_append, List.map_map, List.range_eq_range',
    ← List.zipIdx_map_snd 0 n.choices, List.map_map]
  by_cases h : n.hasNext <;> simp [h, Function.comp_def]

/-- A link leads to one target. -/
theorem Node.links_unique {n : Node} {link : Script.Link} {x y : String}
    (hx : (link, x) ∈ n.links) (hy : (link, y) ∈ n.links) : x = y := by
  cases link with
  | next => exact (mem_links_next_iff.mp hx).2.symm.trans (mem_links_next_iff.mp hy).2
  | choice i =>
      obtain ⟨choice, hchoice, rfl⟩ := mem_links_choice_iff.mp hx
      obtain ⟨choice', hchoice', rfl⟩ := mem_links_choice_iff.mp hy
      rw [Option.some.inj (hchoice.symm.trans hchoice')]

namespace Engine

variable {e : Engine}

/-- Follows a link of the current node. -/
def follow (e : Engine) : Script.Link → Outcome NavigationError
  | .next => e.advance
  | .choice i => e.choose i

/-- Whether a link of a node leads to an unknown node when it is followed from there. -/
def breaks (e : Engine) (n : Node) (link : Script.Link) : Bool :=
  match ((e.goto n.id).engine.follow link).result with
  | .error (.unknownNode _) => true
  | _ => false

/-- The broken links of all nodes, each with the id of its node. -/
def broken (e : Engine) : List (String × Script.Link) :=
  e.script.nodes.flatMap fun n ↦ (n.outgoing.filter (e.breaks n)).map fun link ↦ (n.id, link)

theorem follow_unknownNode_iff {link : Script.Link} {x : String} :
    (e.follow link).result = .error (.unknownNode x) ↔
      e.ready ∧ ⟨e.state.current, link, x⟩ ∈ e.script.dangling := by
  cases link with
  | next => exact advance_unknownNode_iff
  | choice i => exact choose_unknownNode_iff

theorem goto_of_mem (hready : e.ready) {n : Node} (hn : n ∈ e.script.nodes) :
    e.goto n.id = .done { e with state := e.state.advanceTo n.id } := by
  have hcontains : e.script.contains n.id := Script.contains_iff.mpr (List.mem_map_of_mem hn)
  rw [goto, if_neg (by simpa using hready), if_pos hcontains]

theorem breaks_iff (hready : e.ready) {n : Node} (hn : n ∈ e.script.nodes) {link : Script.Link} :
    e.breaks n link ↔ ∃ x, (link, x) ∈ n.links ∧ ¬e.script.contains x := by
  have hbreaks : e.breaks n link ↔
      ∃ x, ((e.goto n.id).engine.follow link).result = .error (.unknownNode x) := by
    rw [breaks]
    split
    · next x hx => simp [hx]
    · next hx => simpa using hx
  have hnode : e.script.node? n.id = some n := Script.node?_eq_some_iff.mpr ⟨hn, rfl⟩
  have hcurrent : (e.state.advanceTo n.id).current = n.id := rfl
  rw [hbreaks, goto_of_mem hready hn]
  refine exists_congr fun x ↦ ?_
  rw [follow_unknownNode_iff, Outcome.done, and_iff_right hready, hcurrent,
    Script.mem_dangling_iff, hnode]
  simp

/-- What is found without following any link is what following them all finds. -/
theorem broken_eq (hready : e.ready) :
    e.broken = e.script.dangling.map fun d ↦ (d.source, d.link) := by
  rw [broken, Script.dangling, List.map_flatMap]
  refine List.flatMap_congr fun n hn ↦ ?_
  have hfilter : n.links.filter (e.breaks n ∘ (·.1)) =
      n.links.filter fun l ↦ !e.script.contains l.2 := by
    refine List.filter_congr fun l hl ↦ ?_
    rw [Function.comp_apply, Bool.eq_iff_iff, breaks_iff hready hn]
    constructor
    · rintro ⟨x, hx, hmissing⟩
      rw [Node.links_unique hl hx]
      simpa using hmissing
    · intro hmissing
      exact ⟨l.2, hl, by simpa using hmissing⟩
  rw [← n.map_fst_links, List.filter_map, hfilter, List.map_map, List.map_map]
  rfl

end Engine

namespace CommandLine.Linter

variable {files : Files}

/-! ## Counting over files -/

/-- Whether a path leads to a text, and the text is a script. -/
def isScript (files : Files) (path : String) : Bool :=
  match files path with
  | .ok text => (Script.parse text).isOk
  | .error _ => false

/-- The broken links of the engine that is built with the script at a path. -/
def brokenAt (files : Files) (settings : Settings) (path : String) :
    List (String × Script.Link) :=
  match Engine.Setup.build { settings, scriptPath := some path } files with
  | .ok (e, _) => e.broken
  | .error _ => []

theorem isOk_findings (files : Files) (path : String) :
    (findings files path).isOk = isScript files path := by
  rw [findings, isScript, Script.load]
  cases files path with
  | error e => rfl
  | ok text =>
      cases hparse : Script.parse text with
      | error e => simp [hparse, Except.map, Except.isOk, Except.toBool]
      | ok script => simp [hparse, Except.map, Except.isOk, Except.toBool]

theorem errorCount_eq (files : Files) (paths : List String) :
    errorCount files paths = paths.countP fun path ↦ !isScript files path := by
  simp only [errorCount, isOk_findings]

/-- A path that leads to no script adds nothing, and any other its broken links. -/
theorem length_findings (files : Files) (settings : Settings) (path : String) (n : Nat) :
    (match findings files path with
      | .ok found => found.length + n
      | .error _ => n) = (brokenAt files settings path).length + n := by
  rw [findings, brokenAt, Engine.Setup.build]
  cases hload : Script.load files path with
  | error e =>
      simp [Engine.Setup.settings?, Engine.Setup.script?, hload, Except.map]
  | ok script =>
      have hbroken := Engine.broken_eq (e := ((Engine.new settings).init.install script).1) rfl
      simp [Engine.Setup.settings?, Engine.Setup.script?, hload, Except.map, hbroken]

theorem danglingCount_eq (files : Files) (settings : Settings) (paths : List String) :
    danglingCount files paths = (paths.flatMap (brokenAt files settings)).length := by
  induction paths with
  | nil => rfl
  | cons path paths ih =>
      rw [List.flatMap_cons, List.length_append, ← ih, ← length_findings]
      rfl

theorem unlines_append (xs ys : List String) : unlines (xs ++ ys) = unlines xs ++ unlines ys := by
  rw [unlines, List.map_append, String.join_append]
  rfl

theorem unlines_summary (errors dangling : Nat) :
    unlines (summary errors dangling) =
      "\nSummary: " ++ errors.repr ++ " errors, " ++ dangling.repr ++ " dangling references\n" := by
  have hstart : "\nSummary: " = "\n" ++ "Summary: " := rfl
  have hend : " dangling references\n" = " dangling references" ++ "\n" := rfl
  rw [hstart, hend]
  simp only [unlines, summary, List.map_cons, List.map_nil, String.join_cons, String.join_nil,
    String.empty_append, String.append_empty, String.append_assoc]

/-- The output for paths is what there is to say of each in turn, and then the counts. -/
theorem run_of_paths (files : Files) (settings : Settings) {args : List String}
    (hargs : ¬asksHelp args) :
    let errors := args.countP fun path ↦ !isScript files path
    let broken := (args.flatMap (brokenAt files settings)).length
    run files args =
      { stdout := unlines (args.flatMap (report files)) ++
          ("\nSummary: " ++ errors.repr ++ " errors, " ++ broken.repr ++ " dangling references\n")
        exit := if errors = 0 ∧ broken = 0 then 0 else 1 } := by
  intro errors broken
  have herrors : errorCount files args = errors := errorCount_eq files args
  have hbroken : danglingCount files args = broken := danglingCount_eq files settings args
  rw [run, if_neg hargs, herrors, hbroken]
  dsimp only
  rw [unlines_append, unlines_summary]

/-- Unless its first argument asks for help, the linter prints what it has to say of each path and
then two counts: of the paths that lead to no script, and of the links that are broken in the
engines that the others build, whatever their settings. A path counts as often as it is given. The
linter exits with 0 if there is nothing to count, and with 1 otherwise. -/
theorem run_counts (files : Files) (settings : Settings) (path : String) (paths : List String)
    (hlong : path ≠ "--help") (hshort : path ≠ "-h") :
    let args := path :: paths
    let errors := args.countP fun path ↦ !isScript files path
    let broken := (args.flatMap (brokenAt files settings)).length
    (run files args).stdout = unlines (args.flatMap (report files)) ++
      ("\nSummary: " ++ errors.repr ++ " errors, " ++ broken.repr ++ " dangling references\n") ∧
    (run files args).exit = if errors = 0 ∧ broken = 0 then 0 else 1 := by
  intro args errors broken
  have hargs : ¬asksHelp args := by simp [args, asksHelp, hlong, hshort]
  have hrun := run_of_paths files settings hargs
  exact ⟨congrArg Output.stdout hrun, congrArg Output.exit hrun⟩

/-- A script given twice counts twice, past a text that is no script and a file that is no text. Its
empty id can be linked to, and of its two nodes with that id only the second counts. -/
theorem run_counts_repeated :
    let text := "\x7b\"nodes\":[\x7b\"next\":\"x\"\x7d," ++
      "\x7b\"next\":\"y\",\"choices\":[\x7b\"text\":\"t\"\x7d,\x7b\"next\":\"z\"\x7d]\x7d]\x7d"
    let files : Files := fun path ↦
      if path = "a" then .ok text else if path = "b" then .ok "[" else .error .notText
    let args := ["a", "b", "a", "c"]
    (run files args).stdout = unlines (args.flatMap (report files)) ++
      ("\nSummary: " ++ (2).repr ++ " errors, " ++ (4).repr ++ " dangling references\n") ∧
    (run files args).exit = 1 := by
  intro text files args
  obtain ⟨hstdout, hexit⟩ :=
    run_counts files {} "a" ["b", "a", "c"] (by decide) (by decide)
  have herrors : (args.countP fun path ↦ !isScript files path) = 2 := by decide +kernel
  have hbroken : (args.flatMap (brokenAt files {})).length = 4 := by decide +kernel
  rw [herrors, hbroken] at hstdout hexit
  exact ⟨hstdout, hexit⟩

end CommandLine.Linter

end Dialogue
