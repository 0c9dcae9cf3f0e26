import TidyUse.Text.Lines

/-!
# Paths

* `Path` : a path as it is written, without empty steps and steps to the same directory;
* `Path.ofString`, `Path.toText` : paths and their texts;
* `Path.append` : a way further down;
* `Path.isRust` : the path names a Rust file;
* `Path.hasNull` : the path holds a null character, so that it can name nothing.
-/

namespace TidyUse

/-- A path. Steps up, written `..`, stay in it. -/
structure Path where
  /-- How many slashes the path starts with: none if it is relative, one, or exactly two, which
  some systems give a meaning of its own. -/
  slashes : Nat := 0
  steps : List String
deriving DecidableEq

namespace Path

/-- The number of slashes that is kept of those at the start of a path. -/
def leadingSlashes (text : List Char) : Nat :=
  match (text.takeWhile (· == '/')).length with
  | 0 => 0
  | 2 => 2
  | _ => 1

def ofString (text : String) : Path :=
  let steps := (text.toList.splitOn '/').map String.ofList
  { slashes := leadingSlashes text.toList
    steps := steps.filter fun s => s ≠ "" ∧ s ≠ "." }

/-- The text of a path. The path without steps is the working directory. -/
def toText (p : Path) : String :=
  let text := String.ofList (List.replicate p.slashes '/') ++ "/".intercalate p.steps
  if text.isEmpty then "." else text

def isAbsolute (p : Path) : Bool := p.slashes ≠ 0

def append (p : Path) (way : List String) : Path := { p with steps := p.steps ++ way }

def isRustName (name : String) : Bool := ".rs".toList.isSuffixOf name.toList

/-- The path names a Rust file: its last step has something before the ending. -/
def isRust (p : Path) : Bool :=
  p.steps.getLast?.any fun name => isRustName name && name ≠ ".rs"

def hasNull (p : Path) : Bool := p.steps.any fun s => s.toList.contains '\x00'

end Path

end TidyUse
