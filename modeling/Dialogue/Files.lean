import Dialogue.Text.Pieces

/-! # Files

Reading text files by path. What a path leads to is a function, so that whatever depends on files
is a function too. -/

namespace Dialogue

/-- Why a path gives no text. -/
inductive ReadError where
  /-- The system refused, with its number and wording for the reason. -/
  | system (code : Nat) (reason : String)
  /-- The bytes are not UTF-8. -/
  | notText
  /-- The path itself holds the character that ends paths. -/
  | brokenPath
deriving DecidableEq, Repr

namespace ReadError

def notFound : ReadError := .system 2 "No such file or directory"

def notDirectory : ReadError := .system 20 "Not a directory"

def isDirectory : ReadError := .system 21 "Is a directory"

def nameTooLong : ReadError := .system 36 "File name too long"

def message : ReadError → String
  | .system code reason => "IO error: " ++ reason ++ " (os error " ++ code.repr ++ ")"
  | .notText => "IO error: stream did not contain valid UTF-8"
  | .brokenPath => "IO error: file name contained an unexpected NUL byte"

end ReadError

/-- The text that each path leads to. -/
abbrev Files := String → Except ReadError String

namespace Files

def decode (bytes : ByteArray) : Except ReadError String :=
  match String.fromUTF8? bytes with
  | some text => .ok text
  | none => .error .notText

/-! ## Walking a path

A path is walked name by name. Of the directories around the one that the walk starts in no more is
known than that they go all the way up. -/

/-- How many bytes a name may have. -/
def nameLimit : Nat := 255

/-- How many bytes a path has to stay below. -/
def pathLimit : Nat := 4096

/-- What the names walked so far lead to. -/
inductive Place where
  | directory (contents : List (String × ByteArray))
  | file (bytes : ByteArray)

namespace Place

/-- A directory around the one that a walk starts in. -/
def outside : Place := .directory []

/-- One name further. No name leads on from a file, not even an empty one or a dot. -/
def step : Place → String → Except ReadError Place
  | .file _, _ => .error .notDirectory
  | .directory contents, name =>
      if name = "" ∨ name = "." then .ok (.directory contents)
      else if name = ".." then .ok outside
      else if nameLimit < name.utf8ByteSize then .error .nameTooLong
      else
        match contents.lookup name with
        | some bytes => .ok (.file bytes)
        | none => .error .notFound

/-- The names that a path is made of. -/
def names (path : String) : List String := (Text.pieces (· = '/') path.toList).map String.ofList

def walk (start : Place) (path : String) : Except ReadError Place :=
  (names path).foldlM step start

end Place

/-- The files that a program has which is started in a directory without subdirectories. A slash in
front leads out of the directory. -/
def ofDirectory (contents : List (String × ByteArray)) : Files := fun path =>
  if path.contains '\x00' then .error .brokenPath
  else if path = "" then .error .notFound
  else if pathLimit ≤ path.utf8ByteSize then .error .nameTooLong
  else
    match (if path.startsWith "/" then Place.outside else .directory contents).walk path with
    | .ok (.file bytes) => decode bytes
    | .ok (.directory _) => .error .isDirectory
    | .error e => .error e

end Files

end Dialogue
