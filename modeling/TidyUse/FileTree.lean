import TidyUse.Path
import TidyUse.Text.Utf8

/-!
# Files

* `Place` : where something lies, counted from the root;
* `FileTree` : files, directories, and the working directory;
* `FileTree.locate` : the place of a path, step by step through existing directories;
* `FileTree.resolve` : the place of a path, whether its steps exist or not;
* `FileTree.read`, `FileTree.readText`, `FileTree.write` : what a file holds; `FileError` tells why
  it cannot be had;
* `FileTree.below` : the ways from a directory to all that lies in it.
-/

namespace TidyUse

/-- A place: the steps from the root. -/
abbrev Place := List String

/-- Files and directories. A directory exists if something lies in it, or if it is listed. -/
structure FileTree where
  /-- The working directory. -/
  cwd : Place
  directories : List Place
  files : List (Place × List UInt8)
  /-- The places that may not be read: neither what a file holds nor what a directory lists. -/
  locked : List Place := []
  /-- The directories that may not be passed through. -/
  sealed : List Place := []

inductive FileError
  | missing
  | isDirectory
  | notDirectory
  | nameTooLong
  | denied
  | notUtf8 (e : Text.Utf8Error)
deriving DecidableEq

def FileError.message (path : Path) : FileError → String
  | missing => "[Errno 2] No such file or directory: " ++ Text.quoted path.toText
  | isDirectory => "[Errno 21] Is a directory: " ++ Text.quoted path.toText
  | notDirectory => "[Errno 20] Not a directory: " ++ Text.quoted path.toText
  | nameTooLong => "[Errno 36] File name too long: " ++ Text.quoted path.toText
  | denied => "[Errno 13] Permission denied: " ++ Text.quoted path.toText
  | notUtf8 e => e.message

namespace FileTree

/-- The directories that are sure to exist, with all those above them. -/
def anchors (t : FileTree) : List Place :=
  t.cwd :: t.directories ++ t.files.map fun f => f.1.dropLast

def isDirectoryAt (t : FileTree) (p : Place) : Bool := t.anchors.any fun a => p.isPrefixOf a

def bytesAt? (t : FileTree) (p : Place) : Option (List UInt8) := t.files.lookup p

def maxName : Nat := 255

def maxPath : Nat := 4095

/-- Follows steps from a directory. All but the last have to lead to directories. -/
def locateFrom (t : FileTree) (place : Place) : List String → Except FileError Place
  | [] => .ok place
  | step :: steps =>
    if t.sealed.contains place then .error .denied
    else if step = ".." then locateFrom t place.dropLast steps
    else if maxName < step.utf8ByteSize then .error .nameTooLong
    else
      let next := place ++ [step]
      if steps.isEmpty || t.isDirectoryAt next then locateFrom t next steps
      else if (t.bytesAt? next).isSome then .error .notDirectory
      else .error .missing

def start (t : FileTree) (p : Path) : Place := if p.isAbsolute then [] else t.cwd

def locate (t : FileTree) (p : Path) : Except FileError Place :=
  if maxPath < p.toText.utf8ByteSize then .error .nameTooLong
  else t.locateFrom (t.start p) p.steps

/-- The place of a path, whether its steps exist or not. -/
def resolve (t : FileTree) (p : Path) : Place :=
  p.steps.foldl (fun place s => if s = ".." then place.dropLast else place ++ [s]) (t.start p)

def read (t : FileTree) (p : Path) : Except FileError (List UInt8) := do
  let place ← t.locate p
  match t.bytesAt? place with
  | some bytes => if t.locked.contains place then throw .denied else return bytes
  | none =>
    if t.isDirectoryAt place then
      throw (if t.locked.contains place then .denied else .isDirectory)
    else throw .missing

def readText (t : FileTree) (p : Path) : Except FileError (List Char) := do
  match Text.decodeUtf8 (← t.read p) with
  | .ok text => return text
  | .error e => throw (.notUtf8 e)

def writeAt (t : FileTree) (place : Place) (bytes : List UInt8) : FileTree :=
  { t with files := t.files.map fun f => if f.1 = place then (place, bytes) else f }

def write (t : FileTree) (p : Path) (text : List Char) : FileTree :=
  match t.locate p with
  | .ok place => t.writeAt place (Text.encodeUtf8 text)
  | .error _ => t

def places (t : FileTree) : List Place :=
  (t.files.map Prod.fst ++
    t.anchors.flatMap fun a => (List.range (a.length + 1)).map a.take).eraseDups

/-- The ways from a directory to all that lies in it, at any depth, in order. -/
def below (t : FileTree) (directory : Place) : List (List String) :=
  let inside := t.places.filter fun p => directory.isPrefixOf p && directory.length < p.length
  (inside.map fun p => p.drop directory.length).mergeSort fun a b => !decide (b < a)

end FileTree

end TidyUse
