import Dialogue.CommandLine.Linter
import Dialogue.CommandLine.Player

/-! # Command line

The first argument names the tool and the others go to it. Files are read before a tool starts, and
lines of input one by one. -/

namespace Dialogue.CommandLine

/-- The reason that the system gave for refusing a file. -/
def readError : IO.Error → ReadError
  | .noFileOrDirectory _ _ _ => .notFound
  | .inappropriateType _ code details | .permissionDenied _ code details
  | .invalidArgument _ code details
  | .resourceExhausted _ code details | .noSuchThing _ code details
  | .otherError code details | .hardwareFault code details => .system code.toNat details
  | e => .system 0 (toString e)

def readFile (path : String) : IO (Except ReadError String) := do
  try
    return Files.decode (← IO.FS.readBinFile path)
  catch e => return .error (readError e)

/-- The files at the given paths. -/
def readFiles (paths : List String) : IO Files := do
  let contents ← paths.mapM fun path => do return (path, ← readFile path)
  return fun path => (contents.lookup path).getD (.error .notFound)

def emit (output : Output) : IO UInt32 := do
  IO.print output.stdout
  IO.eprint output.stderr
  return output.exit.toUInt32

/-- The bytes of the next line with its line feed, after those already read. -/
partial def readLine (seen : ByteArray) : IO ByteArray := do
  let next ← (← IO.getStdin).read 1
  let line := seen ++ next
  if next.isEmpty || next.toList = [10] then return line else readLine line

/-- Reads lines and prints replies until the input ends, or a line is not text. -/
partial def converse (e : Engine) : IO Unit := do
  IO.print Player.prompt
  (← IO.getStdout).flush
  match String.fromUTF8? (← readLine .empty) with
  | none | some "" => return
  | some line =>
      let reply := Player.reply e (Player.Request.ofLine line)
      IO.print (unlines reply.lines)
      unless reply.quits do converse reply.engine

def lint (args : List String) : IO UInt32 := do
  emit (Linter.run (← readFiles args) args)

def play (args : List String) : IO UInt32 := do
  match Player.start (← readFiles args) args with
  | .error output => emit output
  | .ok (greeting, e) =>
      IO.print (unlines greeting)
      converse e
      return 0

end Dialogue.CommandLine

def main : List String → IO UInt32
  | "script_linter" :: args => Dialogue.CommandLine.lint args
  | "player" :: args => Dialogue.CommandLine.play args
  | _ => do
      IO.eprintln "Usage: dialogue (script_linter | player) <arguments>"
      return 1
