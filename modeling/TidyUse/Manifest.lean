import TidyUse.Dependencies
import TidyUse.FileTree.Search

/-!
# Manifests

A package declares the crates it needs in a `Cargo.toml`.

* `Manifest.names` : the crates of one dependency table;
* `Manifest.dependencies` : the crates of a manifest;
* `Manifest.read` : the crates of a manifest file;
* `Manifest.find` : the manifest file closest to a source file, among its `Manifest.candidates`;
* `Manifest.dependenciesFor` : the crates declared for a source file.
-/

namespace TidyUse.Manifest

open Toml

/-- The names of one entry of a dependency table: its own, and that of the package if it is renamed. -/
def entryNames (name : String) (v : Value) : List String :=
  match v.get? "package" with
  | some (.string package) => [crateName name, crateName package]
  | _ => [crateName name]

def names : Option Value → List String
  | some (.table entries) => entries.flatMap fun e => entryNames e.1 e.2
  | _ => []

/-- The tables of the targets of a manifest. -/
def targets (manifest : Value) : List Value :=
  match manifest.get? "target" with
  | some (.table entries) => entries.map Prod.snd
  | _ => []

/-- The crates of a manifest, its workspace and its targets. -/
def dependencies (manifest : Value) : Dependencies :=
  let ofAll (field : String) : List String :=
    (manifest :: targets manifest).flatMap fun v => names (v.get? field)
  { normal := ofAll "dependencies" ++
      names ((manifest.get? "workspace").bind fun w => w.get? "dependencies")
    dev := ofAll "dev-dependencies"
    build := ofAll "build-dependencies" }

inductive Loaded
  | document (manifest : Value)
  | unreadable (e : FileError)
  | malformed
  | fault (f : Fault)

def load (t : FileTree) (path : Path) : Loaded :=
  match t.readText path with
  | .error e => .unreadable e
  | .ok text =>
    match Toml.read text with
    | .ok table => .document (.table table)
    | .error .malformed => .malformed
    | .error (.longInteger digits) => .fault (.longInteger digits)

/-- Notes that a manifest cannot be read. It counts as one without crates. -/
def skip (path : Path) (reason : String) : Guarded Dependencies := do
  Traced.note .manifest (.unreadableManifest path.toText reason)
  return {}

def read (t : FileTree) (path : Path) : Guarded Dependencies := do
  path.check
  match load t path with
  | .document manifest => return dependencies manifest
  | .unreadable e => skip path (e.message path)
  | .malformed => skip path "<toml error>"
  | .fault f => throw f

def fileName : String := "Cargo.toml"

/-- The directory and all those above it, nearest first. -/
def upwards (directory : Place) : List Place :=
  (List.range (directory.length + 1)).reverse.map directory.take

/-- Where the manifest file of a source file may lie, nearest first. -/
def candidates (t : FileTree) (source : Path) : List Path :=
  (upwards (t.resolve source).dropLast).map fun d => { slashes := 1, steps := d ++ [fileName] }

/-- The manifest file in the directory of a source file, or in the nearest one above that has it. -/
def find (t : FileTree) (source : Path) : Guarded (Option Path) := do
  source.check
  MonadExcept.ofExcept (t.firstFile (candidates t source))

def dependenciesFor (t : FileTree) (source : Path) : Guarded Dependencies := do
  match ← find t source with
  | some path => read t path
  | none =>
    Traced.note .manifest (.noManifest source.toText)
    return {}

end TidyUse.Manifest
