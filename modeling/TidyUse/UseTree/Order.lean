import TidyUse.UseTree

/-!
# The order of a tree

* `UseTree.sortKey` : `self` first, then names by code points, globs last;
* `UseTree.sort` : the children in order at every node;
* `UseTree.canonicalPath` : the path of first children in the sorted tree.
-/

namespace TidyUse.UseTree

/-- The place of a tree among its siblings. -/
def sortKey (t : UseTree) : Nat × String :=
  if t.isSelf then (0, "") else if t.isGlob then (2, "") else (1, t.name)

def keyLe (a b : Nat × String) : Bool := decide (a.1 < b.1) || a.1 == b.1 && decide (a.2 ≤ b.2)

def siblingLe (s t : UseTree) : Bool := keyLe s.sortKey t.sortKey

mutual

def sort : UseTree → UseTree
  | glob s => glob s
  | node s cs => node s ((sortAll cs).mergeSort siblingLe)

def sortAll : List UseTree → List UseTree
  | [] => []
  | t :: ts => sort t :: sortAll ts

end

/-- The names along the first children. -/
def firstPath : UseTree → List String
  | glob s => [s.name]
  | node s [] => [s.name]
  | node s (c :: _) => s.name :: firstPath c

/-- The path of first children of the sorted tree, as text. -/
def canonicalPath (t : UseTree) : String := "::".intercalate t.sort.firstPath

theorem sortAll_eq_map (ts : List UseTree) : sortAll ts = ts.map sort := by
  induction ts with
  | nil => simp [sortAll]
  | cons t ts ih => simp [sortAll, ih]

end TidyUse.UseTree
