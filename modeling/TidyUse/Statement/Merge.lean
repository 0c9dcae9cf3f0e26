import TidyUse.Statement
import TidyUse.Target.Trie
import TidyUse.Text.Space
import TidyUse.Trace

/-!
# Merging declarations

Declarations with the same first name, visibility and attributes become one: `use a::b;` and
`use a::{b::c, d};` become `use a::{b::{self, c}, d};`. If two of them give one path different
explicit names, each stays by itself.

* `distinct xs`, `buckets key xs` : the members of `xs`, each once, or by key. Members and keys come
  in the order of first appearance;
* `Statement.mergeKey` : what has to agree;
* `Statement.unite` : one declaration from several, or the conflict between them;
* `Statement.merge` : all declarations, merged, in the order of first appearance.
-/

namespace TidyUse

section Buckets

variable {α κ : Type}

def distinct [BEq α] (xs : List α) : List α := xs.eraseDups

def buckets [BEq κ] (key : α → κ) (xs : List α) : List (κ × List α) :=
  (distinct (xs.map key)).map fun k => (k, xs.filter fun x => key x == k)

end Buckets

namespace Statement

/-- The attributes without white space at their ends, in order. -/
def attributeKey (s : Statement) : List String :=
  (s.attributes.map Text.trimmed).mergeSort

/-- What has to agree for declarations to be merged. -/
def mergeKey (s : Statement) : String × String × List String :=
  (s.root, s.visibilityText, s.attributeKey)

/-- The least span that holds all the declarations that have one. -/
def unionSpan (statements : List Statement) : Option Span :=
  match statements.filterMap Statement.span with
  | [] => none
  | s :: ss => some (ss.foldl Span.union s)

/-- One declaration from several of one key. -/
def unite (first : Statement) (others : List Statement) : Except Conflict Statement := do
  let targets ← Target.deduplicate ((first :: others).flatMap fun s => s.tree.targets)
  let tree :=
    match targets with
    | [] => first.tree
    | t :: ts => UseTree.ofTargets t ts
  return { first with tree := tree.sort, span := unionSpan (first :: others) }

/-- A declaration merged with itself, or left as it is if it contradicts itself. -/
def tidy (log : Logger) (s : Statement) : Traced (List Statement) :=
  match unite s [] with
  | .ok merged => return [merged]
  | .error conflict => do
    Traced.note log (.leftAsWritten conflict)
    return [s]

/-- The declarations of one key, merged if they agree. -/
def mergeBucket (log : Logger) : List Statement → Traced (List Statement)
  | [] => return []
  | first :: others =>
    match unite first others with
    | .ok merged => do
      unless others.isEmpty do
        Traced.note log (.merged (others.length + 1) first.root)
      return [merged]
    | .error conflict => do
      Traced.note log (.notMerged first.root conflict)
      Traced.flatMap (tidy log) (first :: others)

def merge (log : Logger) (statements : List Statement) : Traced (List Statement) :=
  Traced.flatMap (fun bucket => mergeBucket log bucket.2) (buckets mergeKey statements)

end Statement

end TidyUse
