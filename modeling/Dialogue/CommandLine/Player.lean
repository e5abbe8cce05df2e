import Dialogue.CommandLine.Output
import Dialogue.Engine.Setup
import Dialogue.Text.Casing
import Dialogue.Text.Pieces
import Dialogue.Text.Space

/-! # The player

A console session with one script: each line of input is a request, and each request has a reply. -/

namespace Dialogue.CommandLine.Player

/-! ## Requests -/

inductive Request where
  | blank
  | quit
  | help
  | look
  | next
  | choose (index : Nat)
  | goto (id : String)
  | back
  | set (name : String) (value : Int32)
  | get (name : String)
  | save
  | load (text : String)
  | reset
  /-- A known command with arguments that it does not take. -/
  | misused (usage : String)
  | unknown (command : String)
deriving DecidableEq, Repr

namespace Request

def chooseUsage : String := "choose <n>"
def gotoUsage : String := "goto <id>"
def setUsage : String := "set <name> <value>"
def getUsage : String := "get <name>"

def ofSetWords : List (List Char) → Request
  | [name, value] =>
      match Text.Decimal.signed? (String.ofList value) with
      | some value => .set (String.ofList name) value
      | none => .misused setUsage
  | _ => .misused setUsage

/-- The request of a command with the text after it. -/
def ofCommand (command : String) (rest : List Char) : Request :=
  match command with
  | "quit" | "exit" | "q" => .quit
  | "help" | "h" | "?" => .help
  | "look" | "l" => .look
  | "next" | "n" => .next
  | "choose" | "c" =>
      match Text.Decimal.unsigned? (String.ofList rest) with
      | some index => .choose index
      | none => .misused chooseUsage
  | "goto" => if rest = [] then .misused gotoUsage else .goto (String.ofList rest)
  | "back" | "b" => .back
  | "set" => ofSetWords ((Text.pieces Text.isSpace rest).filter (· ≠ []))
  | "get" => if rest = [] then .misused getUsage else .get (String.ofList rest)
  | "save" => .save
  | "load" => .load (String.ofList rest)
  | "reset" => .reset
  | command => .unknown command

/-- The request of a line: its first word in lower case is the command. -/
def ofLine (line : String) : Request :=
  let line := Text.trim line.toList
  if line = [] then .blank
  else
    let word := line.takeWhile fun c => !Text.isSpace c
    let rest := line.dropWhile fun c => !Text.isSpace c
    ofCommand (String.ofList (Text.Casing.lower word)) (Text.trim rest)

end Request

/-! ## Views -/

def help : List String :=
  ["Commands:",
    "  look                 show the current node",
    "  next                 follow the current node's next link",
    "  choose <n>           take choice n (0-based)",
    "  goto <id>            jump to a node",
    "  back                 return to the previous node",
    "  set <name> <value>   set a variable",
    "  get <name>           print a variable",
    "  save                 print the save text",
    "  load <text>          restore from save text",
    "  reset                clear position, history, and variables",
    "  help                 list commands",
    "  quit                 exit"]

def cueLine : Cue → String
  | .music name looped => "  [bgm] " ++ name ++ if looped then " (loop)" else ""
  | .sound name => "  [se] " ++ name

/-- A line, unless the text that it is about is not set. -/
def lineIfSet (text : String) (line : String) : List String := if text = "" then [] else [line]

def wayForward (node : Node) : List String :=
  if node.hasNext then ["  (next: " ++ node.next ++ ")"]
  else if node.choices = [] then ["  (no way forward)"]
  else []

def nodeLines (node : Node) : List String :=
  let expression := if node.expression = "" then "" else " (" ++ node.expression ++ ")"
  ["", "[" ++ node.kind.name ++ "] " ++ node.id] ++
    lineIfSet node.background ("  background: " ++ node.background) ++
    lineIfSet node.character ("  character: " ++ node.character ++ expression) ++
    node.cues.map cueLine ++
    [if node.speaker = "" then node.text else node.speaker ++ ": " ++ node.text] ++
    (node.choices.zipIdx.map fun (choice, i) => "  " ++ i.repr ++ ") " ++ choice.text) ++
    wayForward node ++ [""]

/-- The current node, or why there is none. -/
def view (e : Engine) : List String :=
  match e.currentNode? with
  | some node => nodeLines node
  | none =>
      if e.currentId = "" then ["(no current node)"]
      else ["(current node '" ++ e.currentId ++ "' is not in the script)"]

/-! ## Replies -/

structure Reply where
  lines : List String
  engine : Engine
  quits : Bool := false

/-- The reply to a move shows where it led, or why it failed. -/
def Reply.ofMove (o : Engine.Outcome NavigationError) : Reply :=
  match o.result with
  | .ok () => { lines := view o.engine, engine := o.engine }
  | .error e => { lines := ["ERROR: " ++ e.message], engine := o.engine }

def assignment (name : String) (value : Int32) : String :=
  name ++ " = " ++ Text.Decimal.ofInt value

def reply (e : Engine) : Request → Reply
  | .blank => { lines := [], engine := e }
  | .quit => { lines := ["Goodbye."], engine := e, quits := true }
  | .help => { lines := help, engine := e }
  | .look => { lines := view e, engine := e }
  | .next => .ofMove e.advance
  | .choose index => .ofMove (e.choose index)
  | .goto id => .ofMove (e.goto id)
  | .back => .ofMove e.back
  | .set name value =>
      let o := e.setVariable name value
      match o.result with
      | .ok () => { lines := [assignment name value], engine := o.engine }
      | .error error => { lines := ["ERROR: " ++ error.message], engine := o.engine }
  | .get name =>
      { lines :=
          [if e.hasVariable name then assignment name (e.valueOf name)
            else name ++ " is not set (reads as 0)"]
        engine := e }
  | .save =>
      match e.save with
      | .ok text => { lines := [text], engine := e }
      | .error error => { lines := ["ERROR: " ++ error.message], engine := e }
  | .load text =>
      let o := e.loadState text
      match o.result with
      | .ok () => { lines := "State restored." :: view o.engine, engine := o.engine }
      | .error error => { lines := ["ERROR: " ++ error.message], engine := o.engine }
  | .reset =>
      let o := e.reset
      match o.result with
      | .ok () =>
          { lines := ["State cleared. Use 'goto <id>' to start again."], engine := o.engine }
      | .error error => { lines := ["ERROR: " ++ error.message], engine := o.engine }
  | .misused usage => { lines := ["Usage: " ++ usage], engine := e }
  | .unknown command =>
      { lines := ["Unknown command: " ++ command ++ ". Type 'help' for commands."], engine := e }

/-! ## Sessions -/

def prompt : String := "player> "

/-- What a session prints for lines of input: each line has a prompt before its reply, and so has
the end of the input. -/
def session (e : Engine) : List String → String
  | [] => prompt
  | line :: lines =>
      let r := reply e (Request.ofLine line)
      prompt ++ unlines r.lines ++ if r.quits then "" else session r.engine lines

def usage : List String := ["Usage: player <script.json> [--config <engine.ron>]"]

/-- The settings file that options name, after one named before, or the first argument that is no
option. -/
def settingsPath (named : Option String) : List String → Except String (Option String)
  | [] => .ok named
  | "--config" :: path :: args => settingsPath (some path) args
  | arg :: _ => .error arg

/-- The greeting and the engine that a session starts with, or the output if there is none. -/
def start (files : Files) (args : List String) (read : Settings.Reader := .ron) :
    Except Output (List String × Engine) :=
  match args with
  | [] => .error { stdout := unlines usage }
  | path :: options =>
      if asksHelp args then .error { stdout := unlines usage }
      else
        match settingsPath none options with
        | .error arg =>
            .error
              { stdout := unlines usage
                stderr := unlines ["Unknown argument: " ++ arg]
                exit := 1 }
        | .ok settings =>
            let setup : Engine.Setup := { settingsPath := settings, scriptPath := some path }
            match setup.build files read with
            | .error e => .error { stderr := unlines ["ERROR: " ++ e.message], exit := 1 }
            | .ok (e, _) =>
                .ok
                  (["Loaded " ++ e.script.size.repr ++ " nodes from " ++ path,
                    "Type 'help' for commands.", ""] ++ view e, e)

def run (files : Files) (args : List String) (lines : List String)
    (read : Settings.Reader := .ron) : Output :=
  match start files args read with
  | .error output => output
  | .ok (greeting, e) => { stdout := unlines greeting ++ session e lines }

end Dialogue.CommandLine.Player
