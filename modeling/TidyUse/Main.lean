import TidyUse.Cli.Run

/-!
# The program

`main` puts the files that a run may look at into a file tree, runs the command line on it, prints
what the run prints and writes the files that it changed.

The files are those named by the arguments, and the manifests above them. The files in a directory
are not listed here, so a directory among the paths is refused. The external formatter is not
started; a run that asks for it is told that it is missing.
-/

namespace TidyUse.Cli

inductive Entry
  | file (bytes : List UInt8)
  /-- A file that may not be read. -/
  | locked
  | directory
  | nothing

/-- The places that the directories on the way along a path lead to. -/
def waypoints (t : FileTree) (p : Path) : List Place :=
  (List.range p.steps.length).map fun n => t.resolve { p with steps := p.steps.take n }

/-- The tree with what lies at a path, and the directories on the way to it. -/
def addEntry (t : FileTree) (p : Path) : Entry → FileTree
  | .file bytes =>
    { t with
      directories := waypoints t p ++ t.directories
      files := (t.resolve p, bytes) :: t.files }
  | .locked =>
    { t with
      directories := waypoints t p ++ t.directories
      files := (t.resolve p, []) :: t.files
      locked := t.resolve p :: t.locked }
  | .directory => { t with directories := t.resolve p :: waypoints t p ++ t.directories }
  | .nothing => t

/-- The files that a run may look at: those of the arguments, and manifests. -/
def needed (t : FileTree) (args : Arguments) : List Path :=
  args.paths ++ args.manifest.join.toList ++ args.paths.flatMap (Manifest.candidates t)

def changes (before after : FileTree) : List (Place × List UInt8) :=
  after.files.filter fun f => before.bytesAt? f.1 != some f.2

/-- The code of the system for a directory where a file is expected. -/
def directoryCode : UInt32 := 21

/-- Looks at a path. Nothing lies at a path that can name nothing, or that is too long. -/
def look (p : Path) : IO Entry := do
  if p.hasNull then return .nothing
  match ← (IO.FS.readBinFile p.toText).toBaseIO with
  | .ok bytes => return .file bytes.toList
  | .error (.noFileOrDirectory ..) => return .nothing
  | .error (.invalidArgument ..) => return .nothing
  | .error (.permissionDenied ..) => return .locked
  | .error (.inappropriateType _ code _) =>
    return if code = directoryCode then .directory else .nothing
  | .error e => throw e

/-- The tree with what lies at some paths. -/
def load (t : FileTree) (paths : List Path) : IO FileTree :=
  paths.foldlM (fun t p => return addEntry t p (← look p)) t

def loadNeeded (t : FileTree) (args : Arguments) : IO FileTree := do
  let t ← load t (needed t args)
  match args.paths.find? fun p => t.isDirectoryAt (t.resolve p) with
  | some p => throw (.userError (programName ++ ": error: cannot list the directory " ++ p.toText))
  | none => return t

def runSystem (words : List String) : IO UInt32 := do
  let cwd := (Path.ofString (toString (← IO.currentDir))).steps
  let empty : FileTree := { cwd, directories := [], files := [] }
  let before ←
    match Arguments.parse words with
    | .ok args => loadNeeded empty args
    | .error _ => pure empty
  let r := run .absent before words
  for f in changes before r.tree do
    IO.FS.writeBinFile (Path.mk 1 f.1).toText ⟨f.2.toArray⟩
  IO.print r.stdout
  IO.eprint r.stderr
  return r.exitCode.toUInt32

end TidyUse.Cli

def main (words : List String) : IO UInt32 := do
  try TidyUse.Cli.runSystem words
  catch e =>
    IO.eprintln (toString e)
    return 2
