import TidyUse.Fault

/-!
# Looking for files

That nothing lies at a path is an answer. If it cannot be told what lies there, the search ends in a
fault.

* `FileTree.probe` : the place that a path leads to;
* `FileTree.isFile`, `FileTree.firstFile` : whether a file lies at a path, and the first path of
  several at which one does;
* `FileTree.walk` : all that lies in a directory, at any depth;
* `FileTree.rustFiles` : the Rust files that some paths stand for.
-/

namespace TidyUse.FileTree

/-- The place that a path leads to, unless a directory on the way is missing. -/
def probe (t : FileTree) (p : Path) : Except Fault (Option Place) :=
  if p.hasNull then .ok none
  else
    match t.locate p with
    | .ok place => .ok (some place)
    | .error .missing => .ok none
    | .error .notDirectory => .ok none
    | .error e => .error (.inaccessible p e)

/-- There is a file at the path, whether it may be read or not. -/
def isFile (t : FileTree) (p : Path) : Except Fault Bool := do
  return (← t.probe p).any fun place => (t.bytesAt? place).isSome

def firstFile (t : FileTree) : List Path → Except Fault (Option Path)
  | [] => return none
  | p :: ps => do if ← t.isFile p then return some p else firstFile t ps

def openDirectory (t : FileTree) (p : Path) : Except FileError Unit := do
  if t.locked.contains (← t.locate p) then throw .denied

/-- A walk from the directory at `p` comes to the end of a way if every directory before it can be
opened. -/
def isMet (t : FileTree) (p : Path) (way : List String) : Bool :=
  (List.range way.length).all fun n => (t.openDirectory (p.append (way.take n))).isOk

/-- What ends a walk that comes to a directory. One that may not be opened is passed over. -/
def obstacle? (t : FileTree) (p : Path) : Option Fault :=
  match t.openDirectory p with
  | .ok _ => none
  | .error .denied => none
  | .error e => some (.inaccessible p e)

/-- The paths of all that a walk through a directory comes to, in order. -/
def walk (t : FileTree) (p : Path) (place : Place) : Except Fault (List Path) :=
  let met := (t.below place).filter (t.isMet p)
  let directories := met.filter fun way => t.isDirectoryAt (place ++ way)
  match directories.findSome? fun way => t.obstacle? (p.append way) with
  | some f => .error f
  | none => .ok (met.map p.append)

/-- The Rust files a path stands for: the file itself if its name is right, or all in a directory
that is named like one. -/
def rustFilesAt (t : FileTree) (p : Path) : Except Fault (List Path) := do
  match ← t.probe p with
  | none => return []
  | some place =>
    if (t.bytesAt? place).isSome then return [p].filter Path.isRust
    else if t.isDirectoryAt place then
      return (← t.walk p place).filter fun q => q.steps.getLast?.any Path.isRustName
    else return []

def rustFiles (t : FileTree) : List Path → Except Fault (List Path)
  | [] => return []
  | p :: ps => do return (← t.rustFilesAt p) ++ (← rustFiles t ps)

end TidyUse.FileTree
