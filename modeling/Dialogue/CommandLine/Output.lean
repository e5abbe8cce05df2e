/-! # Output of commands -/

namespace Dialogue.CommandLine

/-- What a command prints and how it exits. -/
structure Output where
  stdout : String := ""
  stderr : String := ""
  exit : Nat := 0
deriving DecidableEq, Repr

/-- Lines as they are printed. -/
def unlines (lines : List String) : String := String.join (lines.map (· ++ "\n"))

/-- Whether the first argument asks for help, or there is none. -/
def asksHelp : List String → Bool
  | [] => true
  | arg :: _ => arg = "--help" || arg = "-h"

end Dialogue.CommandLine
