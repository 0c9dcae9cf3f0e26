import TidyUse.Target.Rename
import TidyUse.Target.Trie
import TidyUse.Trace
import TidyUse.UseTree.Order

/-!
# Dropping unused imports

A compiler reports the words of imports that are not used. An import whose word lies in a reported
span is dropped; but if it has no other name, and the same path is also imported as `_`, then that
one is dropped in its stead.

* `Unused.isReported` : the word of an import lies in a reported span;
* `Unused.dropped` : the places of the imports to drop;
* `Unused.filter` : the declarations without these imports.
-/

namespace TidyUse.Unused

/-- The place of an import: the number of its declaration, and its own number there. -/
abbrev Place := Nat × Nat

/-- The word of the import lies in one of the spans. -/
def isReported (spans : List Span) (t : Target) : Bool :=
  t.leafSpan.any fun leaf => spans.any fun s => s.contains leaf

/-- The imports of one declaration with their places. -/
def placedIn (s : Statement) (i : Nat) : List (Place × Target) :=
  s.tree.targets.zipIdx.map fun p => ((i, p.2), p.1)

def placed (statements : List Statement) : List (Place × Target) :=
  statements.zipIdx.flatMap fun p => placedIn p.1 p.2

/-- The first import of a path as `_` that is not dropped yet. -/
def discardTwin (all : List (Place × Target)) (gone : List Place) (key : String) : Option Place :=
  (all.find? fun p =>
    p.2.rename == some discardName && p.2.key == key && !gone.contains p.1).map Prod.fst

/-- Drops a reported import, or its twin. -/
def drop (all : List (Place × Target)) (gone : List Place) (p : Place × Target) :
    Traced (List Place) :=
  match p.2.rename, discardTwin all gone p.2.key with
  | none, some twin => do
    Traced.note .filter (.droppedDiscard p.2.key)
    return twin :: gone
  | _, _ => return p.1 :: gone

def dropped (spans : List Span) (all : List (Place × Target)) : Traced (List Place) :=
  (all.filter fun p => isReported spans p.2).foldlM (drop all) []

/-- The declaration without the imports to drop, if any import remains. -/
def rebuild (gone : List Place) (s : Statement) (i : Nat) : Traced (List Statement) :=
  let all := placedIn s i
  match all.filter fun p => !gone.contains p.1 with
  | [] =>
    if all.isEmpty then return [s]
    else do
      Traced.note .filter (.droppedStatement s.root)
      return []
  | first :: others =>
    if others.length + 1 = all.length then return [s]
    else return [{ s with tree := (UseTree.ofTargets first.2 (others.map Prod.snd)).sort }]

/-- The declarations without the imports that are reported unused. -/
def filter (spans : List Span) (statements : List Statement) : Traced (List Statement) := do
  let gone ← dropped spans (placed statements)
  Traced.flatMap (fun p => rebuild gone p.1 p.2) statements.zipIdx

end TidyUse.Unused
