import TidyUse.UseTree.Order
import TidyUse.UseTree.Printer

/-!
# Use declarations

* `Statement` : a tree with the visibility and the attributes it is declared with, and where it
  stands in its document, if it stands in one;
* `Statement.sort` : declarations by canonical path and visibility, each with a sorted tree;
* `Statement.format` : the attributes on lines of their own, then the declaration with its tree
  sorted.
-/

namespace TidyUse

structure Statement where
  tree : UseTree
  /-- Such as `pub` or `pub(crate)`. -/
  visibility : Option String := none
  /-- Attribute lines such as `#[cfg(test)]`, from top to bottom. -/
  attributes : List String := []
  /-- The text of the declaration, visibility included and attributes not. -/
  span : Option Span := none
  /-- The block of declarations it belongs to: a comment closes a block. -/
  block : Option Int := none

namespace Statement

def root (s : Statement) : String := s.tree.name

def visibilityText (s : Statement) : String := s.visibility.getD ""

/-! ## Order -/

/-- What declarations are ordered by. -/
def sortKey (s : Statement) : String × String := (s.tree.canonicalPath, s.visibilityText)

def le (s t : Statement) : Bool :=
  decide (s.sortKey.1 < t.sortKey.1) ||
    s.sortKey.1 == t.sortKey.1 && decide (s.sortKey.2 ≤ t.sortKey.2)

/-- Declarations in order, each with its tree sorted. Equal ones keep their order. -/
def sort (statements : List Statement) : List Statement :=
  (statements.map fun s => { s with tree := s.tree.sort }).mergeSort le

/-! ## Text -/

/-- The visibility as it stands before `use`. -/
def visibilityWords (s : Statement) : String :=
  match s.visibility with
  | none | some "" => ""
  | some words => words ++ " "

def format (s : Statement) : String :=
  "\n".intercalate
    (s.attributes ++ [s.visibilityWords ++ "use " ++ s.tree.sort.format "" ++ ";"])

end Statement

end TidyUse
