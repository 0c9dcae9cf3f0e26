import TidyUse.Statement.Merge
import TidyUse.Target.Rename
import TidyUse.Target.Trie
import TidyUse.Text.Lines
import TidyUse.Trace

/-!
# Suggested imports

* `Suggestion` : an import that should be added. A trait is imported as `_`, so that its methods
  can be called and its name stays free;
* `Suggestion.statement?` : the declaration of a suggestion, if its path makes sense;
* `Suggestion.statements` : those of many suggestions;
* `Suggestion.unambiguous` : the paths of the symbols that have one candidate only.
-/

namespace TidyUse

structure Suggestion where
  path : String
  isTraitLike : Bool := false

namespace Suggestion

def names (s : Suggestion) : List String :=
  (Text.splitOnPair ':' s.path.toList).map fun part => String.ofList (Text.trim part)

/-- The import of the path, unless a name is missing. A last name `*` makes it a glob. -/
def target? (s : Suggestion) : Option Target :=
  let names := s.names
  let isGlob := names.getLast? == some UseTree.globName
  let path := if isGlob then names.dropLast else names
  if names.any String.isEmpty || path.isEmpty then none
  else
    some { path, isGlob, rename := if s.isTraitLike && !isGlob then some discardName else none }

/-- The declaration of the import, unless a name is missing. -/
def statement? (s : Suggestion) : Option Statement :=
  s.target?.map fun t => { tree := UseTree.ofTargets t [] }

def statements (suggestions : List Suggestion) : Traced (List Statement) :=
  Traced.flatMap (fun s =>
    match s.statement? with
    | some statement => return [statement]
    | none => do
      Traced.note .filter (.malformedPath s.path)
      return []) suggestions

/-- The paths, in order, of the symbols for which there is exactly one. -/
def unambiguous (candidates : List (String × List String)) : Traced (List String) := do
  let paths ← Traced.flatMap (fun c =>
    match distinct c.2 with
    | [path] => return [path]
    | paths => do
      Traced.note .filter (.severalCandidates c.1 paths.length)
      return []) candidates
  return (distinct paths).mergeSort

end Suggestion

end TidyUse
