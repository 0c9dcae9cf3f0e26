import TidyUse.Span
import TidyUse.Text.Quoted

/-!
# Use trees

`use std::{io, fs::*};` declares the tree with root `std`, a leaf `io` and a node `fs` over a glob.

* `Segment` : a step of a path, with the name it is bound to, if it is renamed;
* `UseTree` : a node over its children, or a glob; a leaf is a node without children, and a glob
  never has children;
* `UseTree.ofParts` : a tree from loose parts, or the reason why they make none.
-/

namespace TidyUse

structure Segment where
  name : String
  rename : Option String := none
  span : Option Span := none
deriving DecidableEq

/-- A tree of paths with a common start. -/
inductive UseTree
  | node (segment : Segment) (children : List UseTree)
  | glob (segment : Segment)

namespace UseTree

def segment : UseTree → Segment
  | node s _ => s
  | glob s => s

def name (t : UseTree) : String := t.segment.name

def children : UseTree → List UseTree
  | node _ cs => cs
  | glob _ => []

def isGlob : UseTree → Bool
  | node .. => false
  | glob _ => true

def isLeaf (t : UseTree) : Bool := t.children.isEmpty

/-- The name that, below another name, stands for that other name. -/
def selfName : String := "self"

def globName : String := "*"

def isSelf : UseTree → Bool
  | node s [] => s.name == selfName
  | _ => false

inductive PartsError
  /-- Children are announced, and there are none. -/
  | noChildren
  /-- A glob of this name has children. -/
  | childrenBelow (name : String)

def PartsError.message : PartsError → String
  | noChildren => "children must be None or non-empty"
  | childrenBelow name => Text.quoted name ++ " node cannot have children"

/-- The tree with a given first step, given children, if any are given, and the mark of a glob. -/
def ofParts (segment : Segment) (children : Option (List UseTree)) (isGlob : Bool) :
    Except PartsError UseTree :=
  match children, isGlob with
  | some [], _ => .error .noChildren
  | some (_ :: _), true => .error (.childrenBelow segment.name)
  | some (c :: cs), false => .ok (node segment (c :: cs))
  | none, true => .ok (glob segment)
  | none, false => .ok (node segment [])

end UseTree

end TidyUse
