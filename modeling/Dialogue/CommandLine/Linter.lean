import Dialogue.CommandLine.Output
import Dialogue.Script.Reading

/-! # The linter

Reports which of the given files are no scripts, and which links of the others lead nowhere. It
succeeds if there is nothing to report. -/

namespace Dialogue.CommandLine.Linter

/-- The dangling links of a file, unless it is no script. -/
def findings (files : Files) (path : String) : Except ScriptError (List Script.Dangling) :=
  (Script.load files path).map Script.dangling

/-- The lines about one file. -/
def report (files : Files) (path : String) : List String :=
  ("=== " ++ path ++ " ===") ::
    match Script.load files path with
    | .error e => ["ERROR: " ++ e.message]
    | .ok script =>
        ("  " ++ script.size.repr ++ " nodes, entry " ++ script.entry.getD "(none)") ::
          if script.dangling = [] then ["  All links resolve."]
          else script.dangling.map fun d => "WARNING: " ++ d.message

/-- How many of the files are no scripts. -/
def errorCount (files : Files) (paths : List String) : Nat :=
  paths.countP fun path => !(findings files path).isOk

/-- How many links dangle in all files together. -/
def danglingCount (files : Files) (paths : List String) : Nat :=
  paths.foldr (fun path n =>
    match findings files path with
    | .ok found => found.length + n
    | .error _ => n) 0

def summary (errors dangling : Nat) : List String :=
  ["", "Summary: " ++ errors.repr ++ " errors, " ++ dangling.repr ++ " dangling references"]

def run (files : Files) (args : List String) : Output :=
  if asksHelp args then { stdout := unlines ["Usage: script_linter <script.json>..."] }
  else
    let errors := errorCount files args
    let dangling := danglingCount files args
    { stdout := unlines (args.flatMap (report files) ++ summary errors dangling)
      exit := if errors = 0 ∧ dangling = 0 then 0 else 1 }

end Dialogue.CommandLine.Linter
