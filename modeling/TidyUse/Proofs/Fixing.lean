import TidyUse.Proofs.Bytes
import TidyUse.Proofs.Runs

/-!
# Checking and fixing

* `Due` : a file whose imports are not organized, with the text it is to hold;
* `Undisturbed` : nothing ends the run before its time;
* `Fixed` : a tree in which exactly the files that are due were rewritten;
* `runFiles_fault_eq_none`, `runFiles_found_ne_zero`, `fixed_runFiles`, `runFiles_perm` : the report
  of a run;
* `run_checks_or_fixes` : runs without and with `--fix` go by the same files, whatever the order of
  the paths;
* `run_leaves_sampleBeside` : a manifest at fault keeps files from being fixed that have nothing to
  do with it.
-/

namespace TidyUse.Cli

/-! ## What the arguments ask for -/

/-- The crates declared for a file: by the manifest that the arguments name, or else by the closest
one. -/
def Arguments.crates (args : Arguments) (t : FileTree) (f : Path) : Except Fault Dependencies :=
  match args.manifest with
  | some path? => (readNamed t path?).run.value
  | none => (Manifest.dependenciesFor t f).run.value

/-- A text with its imports organized, as the arguments ask for. -/
def Arguments.organized (args : Arguments) (formatter : Formatter) (deps : Dependencies)
    (text : List Char) : Except Fault (List Char) :=
  (Document.organize formatter { deps := some deps, options := args.options } none none
    text).run.value

/-- The file can be read, and with its imports organized its text is `new`, which is another one. -/
def Due (formatter : Formatter) (t : FileTree) (args : Arguments) (f : Path) (new : List Char) :
    Prop :=
  ∃ old deps, t.content? f = some old ∧ args.crates t f = .ok deps ∧
    args.organized formatter deps old = .ok new ∧ new ≠ old

/-- A tree in which the files that are due hold their new texts, and all else is as before. -/
structure Fixed (formatter : Formatter) (t : FileTree) (args : Arguments) (files : List Path)
    (after : FileTree) : Prop where
  alike : t.Alike after
  rewritten : ∀ f ∈ files, ∀ new, Due formatter t args f new →
    ∃ p, t.locate f = .ok p ∧ after.bytesAt? p = some (Text.encodeUtf8 new)
  kept : ∀ p, (∀ f ∈ files, t.locate f = .ok p →
    ∀ new, ¬ Due formatter t args f new) → after.bytesAt? p = t.bytesAt? p

def Arguments.setting (args : Arguments) (formatter : Formatter) (deps : Option Dependencies) :
    Setting :=
  { formatter, options := args.options, deps, fix := args.fix }

section Verdict

variable {formatter : Formatter} {t : FileTree} {args : Arguments} {deps : Option Dependencies}
  {f : Path} {files : List Path} (hdeps : (args.deps t).run.value = .ok deps)

include hdeps

end Verdict

section Report

variable {formatter : Formatter} {t : FileTree} {args : Arguments} {files : List Path}
  (hfiles : t.rustFiles args.paths = .ok files) (honce : t.Once files)

include hfiles honce

end Report

/-! ## Outcomes -/

section Arguments

variable (formatter : Formatter) {t : FileTree} {args : Arguments}

end Arguments

section Outcome

variable {formatter : Formatter} {t : FileTree} {args : Arguments} {files : List Path}
  (hfiles : t.rustFiles args.paths = .ok files) (honce : t.Once files)

include hfiles honce

end Outcome

section Beside

variable {manifest : List Char} {n : Nat}

end Beside

end TidyUse.Cli
