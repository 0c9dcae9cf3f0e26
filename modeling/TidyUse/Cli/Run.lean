import TidyUse.Cli.Arguments
import TidyUse.Manifest
import TidyUse.Organize

/-!
# Runs of the command line

A run checks the Rust files of some paths, and organizes the imports of those that need it, if it is
asked to.

* `checkFile` : checks one file, and maybe changes it;
* `Outcome` : what a run prints, its exit code, and the files behind it;
* `run` : a run on a file tree.
-/

namespace TidyUse.Cli

structure Check where
  /-- The imports are not organized. -/
  isFound : Bool
  messages : List String
  tree : FileTree

structure Setting where
  formatter : Formatter := .absent
  options : Options := {}
  /-- The declared crates, if they do not come from the manifest closest to each file. -/
  deps : Option Dependencies := none
  fix : Bool := false

def Setting.depsFor (setting : Setting) (tree : FileTree) (path : Path) : Guarded Dependencies :=
  match setting.deps with
  | some deps => return deps
  | none => Manifest.dependenciesFor tree path

/-- A text with its imports organized, given the declared crates. -/
def Setting.organize (setting : Setting) (deps : Dependencies) (text : List Char) :
    Guarded (List Char) :=
  Document.organize setting.formatter { deps := some deps, options := setting.options } none none
    text

/-- Checks a file, and organizes its imports if that is asked for. -/
def checkFile (setting : Setting) (tree : FileTree) (path : Path) : Guarded Check := do
  path.check
  match tree.readText path with
  | .error e => return ⟨false, ["Error reading " ++ path.toText ++ ": " ++ e.message path], tree⟩
  | .ok raw =>
    let text := Text.normalizeNewlines raw
    let new ← setting.organize (← setting.depsFor tree path) text
    let found := path.toText ++ ": imports are not organized"
    if new = text then return ⟨false, [], tree⟩
    else if setting.fix then
      return ⟨true, [found, "Fixed imports in " ++ path.toText], tree.write path new⟩
    else return ⟨true, [found], tree⟩

/-- What comes of several files, up to a fault, if one is met. -/
structure Report where
  found : Nat := 0
  messages : List String := []
  tree : FileTree
  fault : Option Fault := none

def Report.add (r : Report) (c : Check) : Report :=
  { r with
    found := if c.isFound then r.found + 1 else r.found
    messages := r.messages ++ c.messages
    tree := c.tree }

/-- Checks files one after the other, and ends at a fault. -/
def checkFiles (setting : Setting) (r : Report) : List Path → Traced Report
  | [] => return r
  | path :: paths => do
    match ← (checkFile setting r.tree path).run with
    | .ok c => checkFiles setting (r.add c) paths
    | .error f => return { r with fault := some f }

structure Outcome where
  exitCode : Nat
  stdout : String
  stderr : String
  tree : FileTree
  /-- What ended the run before its time, if something did. -/
  fault : Option Fault := none

/-- The text of some lines, each with its line end. -/
def textOf (lines : List String) : String := String.join (lines.map fun l => l ++ "\n")

def shownNotes (verbose : Bool) (events : List Event) : List String :=
  (events.filter fun e =>
    match e with
    | .note _ d => verbose || d.level == .warning
    | .call _ => false).filterMap Event.line?

def summary (fix : Bool) (found : Nat) : List String :=
  if found = 0 then ["All imports are organized"]
  else
    ["", (if fix then "Fixed" else "Found") ++ " unorganized imports in " ++ toString found ++
      " file(s)"]

/-- The crates of a manifest that the arguments ask for. -/
def readNamed (tree : FileTree) : Option Path → Guarded Dependencies
  | some path => Manifest.read tree path
  | none => throw .unnamedManifest

/-- The declared crates that the arguments name a manifest for, if they do. -/
def Arguments.deps (args : Arguments) (tree : FileTree) : Guarded (Option Dependencies) :=
  match args.manifest with
  | none => return none
  | some path? => return some (← readNamed tree path?)

def Arguments.options (args : Arguments) : Options :=
  { groupImports := args.group, useFormatter := args.useFormatter, edition := args.edition }

def runFiles (formatter : Formatter) (tree : FileTree) (args : Arguments) (files : List Path) :
    Traced Report := do
  match ← (args.deps tree).run with
  | .ok deps => checkFiles { formatter, options := args.options, deps, fix := args.fix } { tree } files
  | .error f => return { tree, fault := some f }

def Report.outcome (args : Arguments) (r : Report) (notes : List String) : Outcome :=
  let messages := if args.quiet then [] else r.messages
  match r.fault with
  | some f => ⟨1, textOf messages, textOf (notes ++ [f.message]), r.tree, some f⟩
  | none =>
    { exitCode := if r.found = 0 || args.fix then 0 else 1
      stdout := textOf (messages ++ summary args.fix r.found)
      stderr := textOf notes
      tree := r.tree }

def runArguments (formatter : Formatter) (tree : FileTree) (args : Arguments) : Outcome :=
  match tree.rustFiles args.paths with
  | .error f => Report.outcome args { tree, fault := some f } []
  | .ok [] => { exitCode := 1, stdout := "", stderr := "No Rust files found\n", tree }
  | .ok (file :: files) =>
    let report := runFiles formatter tree args (file :: files)
    report.value.outcome args (shownNotes args.verbose report.events)

def programName : String := "organize-rust-imports"

def helpText : String := textOf
  [ "usage: organize-rust-imports [-h] [--fix] [--quiet] [--manifest MANIFEST]",
    "                             [--no-group] [--rustfmt] [--edition EDITION]",
    "                             [--verbose]",
    "                             paths [paths ...]",
    "",
    "Merge, sort and group Rust use statements.",
    "",
    "positional arguments:",
    "  paths                Files or directories to check",
    "",
    "options:",
    "  -h, --help           show this help message and exit",
    "  --fix                Rewrite files in place",
    "  --quiet, -q          Only show summary, not individual files",
    "  --manifest MANIFEST  Cargo.toml to read dependencies from (default: closest",
    "                       one above each file)",
    "  --no-group           Keep statements as they are instead of merging and",
    "                       grouping them",
    "  --rustfmt            Format the organized imports with rustfmt",
    "  --edition EDITION    Rust edition passed to rustfmt (default: 2021)",
    "  --verbose, -v        Log debugging information to stderr",
    "",
    "Examples:",
    "  organize-rust-imports src/main.rs               Report files with unorganized imports",
    "  organize-rust-imports src/                      Check every .rs file under src/",
    "  organize-rust-imports --fix src/                Rewrite the imports in place",
    "  organize-rust-imports --fix --rustfmt src/      Also run the imports through rustfmt",
    "        " ]

def run (formatter : Formatter) (tree : FileTree) (words : List String) : Outcome :=
  match Arguments.parse words with
  | .ok args => runArguments formatter tree args
  | .error .help => { exitCode := 0, stdout := helpText, stderr := "", tree }
  | .error refusal =>
    { exitCode := 2, stdout := "", tree
      stderr := programName ++ ": error: " ++ refusal.message ++ "\n" }

end TidyUse.Cli
