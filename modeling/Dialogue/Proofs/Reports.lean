import Dialogue.Proofs.CommandLine.Linter
import Dialogue.Proofs.Engine.Lifecycle
import Dialogue.Proofs.Host.Message
import Dialogue.Proofs.Script.Findings

/-!
# Reports of dangling links

An engine that validates what it loads warns of the dangling links of a script, so does a setup, the
linter prints a line for each, and a host can ask for them. Whichever way a script is looked at, the
messages are the same, in the same order.
-/

namespace Dialogue

/-! ## Engines -/

namespace Engine

theorem message_warnings_install {e : Engine} (h : e.settings.validateOnLoad) (s : Script) :
    (e.install s).2.map Warning.message = s.dangling.map Script.Dangling.message := by
  rw [install]
  dsimp only
  rw [if_pos h, List.map_map]
  rfl

namespace Setup

variable {setup : Setup} {files : Files} {read : Settings.Reader} {s : Script}

theorem script?_of_given (hpath : setup.scriptPath = none) (hgiven : setup.script = some s) :
    setup.script? files = .ok (some s) := by
  rw [script?, hpath, ← hgiven]

theorem script?_of_path {path : String} (hpath : setup.scriptPath = some path)
    (hload : Script.load files path = .ok s) : setup.script? files = .ok (some s) := by
  rw [script?, hpath]
  dsimp only
  rw [hload]
  rfl

theorem build_eq_install {settings : Settings}
    (hsettings : setup.settings? files read = .ok settings)
    (hscript : setup.script? files = .ok (some s)) :
    setup.build files read = .ok ((Engine.new settings).init.install s) := by
  rw [build, hsettings]
  dsimp only
  rw [hscript]

end Setup

end Engine

/-! ## The linter -/

namespace CommandLine.Linter

/-- What a line warns of, if it does. -/
def warning? (line : String) : Option String :=
  ("WARNING: ".toList.isPrefixOf? line.toList).map String.ofList

theorem warning?_append (message : String) : warning? ("WARNING: " ++ message) = some message := by
  simp [warning?, List.isPrefixOf?]

theorem warning?_heading (path : String) : warning? ("=== " ++ path ++ " ===") = none := by
  simp [warning?, List.isPrefixOf?]

theorem warning?_size (text : String) : warning? ("  " ++ text) = none := by
  simp [warning?, List.isPrefixOf?]

theorem warnings_report {files : Files} {path : String} {s : Script}
    (h : Script.load files path = .ok s) :
    (report files path).filterMap warning? = s.dangling.map Script.Dangling.message := by
  have hwarnings : (s.dangling.map fun d ↦ "WARNING: " ++ d.message).filterMap warning? =
      s.dangling.map Script.Dangling.message := by
    have hmessage : warning? ∘ (fun d ↦ "WARNING: " ++ d.message) =
        some ∘ Script.Dangling.message := funext fun d ↦ warning?_append d.message
    rw [List.filterMap_map, hmessage, ← List.filterMap_map, List.filterMap_some]
  have hresolved : warning? "  All links resolve." = none := warning?_size "All links resolve."
  rw [report, h, List.filterMap_cons_none (warning?_heading path)]
  dsimp only
  rw [String.append_assoc, String.append_assoc, List.filterMap_cons_none (warning?_size _)]
  split
  · next hnone => rw [List.filterMap_cons_none hresolved, hnone]; rfl
  · exact hwarnings

end CommandLine.Linter

/-! ## Hosts -/

namespace Host

/-- The message of a finding. -/
def toldMessage? (finding : Json) : Option String := do
  match ← finding.fields? ["message"] with
  | [message] => message.text?
  | _ => none

/-- The messages of the findings that a host is told of. -/
def toldMessages? (text : String) : Option (List String) := do
  let findings ← (← Json.parse? text).items?
  findings.mapM toldMessage?

theorem toldMessages?_danglingMessage (e : Engine) :
    toldMessages? (danglingMessage e) = some (e.script.dangling.map Script.Dangling.message) := by
  have hplain : Json.Plain (.array (e.script.dangling.map Script.Dangling.toJson)) := by
    refine .array fun v hv ↦ ?_
    obtain ⟨d, -, rfl⟩ := List.mem_map.mp hv
    exact d.plain_toJson
  have hread : ∀ d ∈ e.script.dangling,
      (toldMessage? ∘ Script.Dangling.toJson) d = some d.message := by
    intro d _
    rw [Function.comp_apply, toldMessage?, d.message_toJson]
    rfl
  rw [toldMessages?, danglingMessage, Json.parse?_write hplain]
  change (e.script.dangling.map Script.Dangling.toJson).mapM toldMessage? = _
  rw [List.mapM_map, mapM_eq_some_map hread]

theorem call_loadScript {e : Engine} (hready : e.ready) {text : String} {s : Script}
    (hs : Script.parse text = .ok s) :
    call e (.loadScript text) = (some true, (e.install s).1) := by
  rw [call, report, Engine.loadScript_eq_install hready hs]
  rfl

end Host

/-! ## All of them -/

/-- The dangling links of a script are its broken links, each once, by the first appearance of the
node in the text and the place of the link in the node. Engines that validate what they load, and
setups that validate what they are given, warn of these and nothing else; a line of the linter warns
of each, among what it prints of the path, which stands between what it prints of the paths before
and after; and so does the message to a host, once it has loaded the script. -/
theorem Script.reports_agree {text : String} {s : Script} (h : Script.parse text = .ok s) :
    (s.dangling.Nodup ∧ ∀ d, d ∈ s.dangling ↔ s.Broken d) ∧
    (∃ d items, Document.parse text = .ok d ∧
      Document.UpToScalar (d.entryItems "nodes") items ∧
      s.dangling.Pairwise (Dangling.Before (items.map fun item ↦ item.entryText "id"))) ∧
    (∀ e : Engine, e.ready → e.settings.validateOnLoad →
      (e.loadScript text).result = .ok () ∧
      (e.loadScript text).warnings.map Warning.message = s.dangling.map Dangling.message) ∧
    (∀ (setup : Engine.Setup) (files : Files) (read : Settings.Reader) (settings : Settings),
      setup.settings? files read = .ok settings → settings.validateOnLoad →
      (setup.scriptPath = none ∧ setup.script = some s ∨
        ∃ path, setup.scriptPath = some path ∧ files path = .ok text) →
      ∃ e warnings, setup.build files read = .ok (e, warnings) ∧
        warnings.map Warning.message = s.dangling.map Dangling.message) ∧
    (∀ (files : Files) (settings : Settings) (before after : List String) (path : String),
      let args := before ++ path :: after
      let errors := args.countP fun path ↦ !CommandLine.Linter.isScript files path
      let broken := (args.flatMap (CommandLine.Linter.brokenAt files settings)).length
      ¬CommandLine.asksHelp args → files path = .ok text →
      (CommandLine.Linter.run files args).stdout =
        CommandLine.unlines (before.flatMap (CommandLine.Linter.report files) ++
          CommandLine.Linter.report files path ++
          after.flatMap (CommandLine.Linter.report files)) ++
        ("\nSummary: " ++ errors.repr ++ " errors, " ++ broken.repr ++ " dangling references\n") ∧
      (CommandLine.Linter.report files path).filterMap CommandLine.Linter.warning? =
        s.dangling.map Dangling.message) ∧
    ∀ e : Engine, e.ready → ∃ e', Host.call e (.loadScript text) = (some true, e') ∧
      Host.toldMessages? (Host.danglingMessage e') = some (s.dangling.map Dangling.message) := by
  obtain ⟨d, items, hd, hitems, hids⟩ := map_id_of_parse h
  have hpairwise := pairwise_dangling hids
  refine ⟨⟨hpairwise.imp Dangling.Before.ne, fun d ↦ mem_dangling_iff_broken⟩,
    ⟨d, items, hd, hitems, hpairwise⟩, ?_, ?_, ?_, ?_⟩
  · intro e hready hvalidate
    rw [Engine.loadScript_eq_install hready h]
    exact ⟨rfl, Engine.message_warnings_install hvalidate s⟩
  · intro setup files read settings hsettings hvalidate hsource
    have hscript : setup.script? files = .ok (some s) := by
      rcases hsource with ⟨hpath, hgiven⟩ | ⟨path, hpath, hfile⟩
      · exact Engine.Setup.script?_of_given hpath hgiven
      · exact Engine.Setup.script?_of_path hpath ((load_eq_parse hfile).trans h)
    exact ⟨_, _, Engine.Setup.build_eq_install hsettings hscript,
      Engine.message_warnings_install hvalidate s⟩
  · intro files settings before after path args errors broken hargs hfile
    refine ⟨?_, CommandLine.Linter.warnings_report ((load_eq_parse hfile).trans h)⟩
    rw [CommandLine.Linter.run_of_paths files settings hargs, List.flatMap_append,
      List.flatMap_cons, List.append_assoc]
  · intro e hready
    exact ⟨_, Host.call_loadScript hready h, Host.toldMessages?_danglingMessage _⟩

/-- A link back to the node itself and one forward do not dangle; of two items with one id the
second counts, in the place of the first; and a choice without a target dangles. -/
theorem Script.reports_agree_awkward :
    let text := "\x7b\"nodes\":[\x7b\"id\":\"a\",\"next\":\"x\"\x7d," ++
      "\x7b\"id\":\"b\",\"next\":\"b\",\"choices\":[" ++
      "\x7b\"text\":\"t\"\x7d,\x7b\"next\":\"a\"\x7d]\x7d," ++
      "\x7b\"id\":\"a\",\"next\":\"y\"\x7d]\x7d"
    let s : Script :=
      { nodes := [{ id := "a", next := "y" },
          { id := "b", next := "b", choices := [{ text := "t" }, { next := "a" }] }]
        entry := some "a" }
    let settings : Settings := { validateOnLoad := true }
    let files : Files := fun _ ↦ .ok text
    let e := (Engine.new settings).init
    s.dangling = [⟨"a", .next, "y"⟩, ⟨"b", .choice 0, ""⟩] ∧
    (∀ d, d ∈ s.dangling ↔ s.Broken d) ∧
    (e.loadScript text).warnings.map Warning.message = s.dangling.map Dangling.message ∧
    (∃ e warnings, Engine.Setup.build { settings, scriptPath := some "f" } files =
      .ok (e, warnings) ∧ warnings.map Warning.message = s.dangling.map Dangling.message) ∧
    (CommandLine.Linter.run files ["f"]).stdout =
      CommandLine.unlines (CommandLine.Linter.report files "f") ++
        ("\nSummary: " ++ (0).repr ++ " errors, " ++ (2).repr ++ " dangling references\n") ∧
    (CommandLine.Linter.report files "f").filterMap CommandLine.Linter.warning? =
      s.dangling.map Dangling.message ∧
    ∃ e', Host.call e (.loadScript text) = (some true, e') ∧
      Host.toldMessages? (Host.danglingMessage e') = some (s.dangling.map Dangling.message) := by
  intro text s settings files e
  have hparse : Script.parse text = .ok s := by decide +kernel
  obtain ⟨⟨-, hbroken⟩, -, hload, hbuild, hlint, hcall⟩ := reports_agree hparse
  have hargs : ¬CommandLine.asksHelp ["f"] := by decide
  obtain ⟨hstdout, hwarnings⟩ := hlint files settings [] [] "f" hargs rfl
  have herrors : (["f"].countP fun path ↦ !CommandLine.Linter.isScript files path) = 0 := by
    decide +kernel
  have hcount : (["f"].flatMap (CommandLine.Linter.brokenAt files settings)).length = 2 := by
    decide +kernel
  rw [List.nil_append, herrors, hcount, List.flatMap_nil, List.nil_append, List.append_nil]
    at hstdout
  exact ⟨by decide +kernel, hbroken, (hload e rfl rfl).2,
    hbuild _ files .ron settings rfl rfl (.inr ⟨"f", rfl, rfl⟩),
    hstdout, hwarnings, hcall e rfl⟩

end Dialogue
