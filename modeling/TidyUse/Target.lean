import TidyUse.UseTree

/-!
# Targets

A use tree imports targets: `use std::{io::{self, Read}, fs::*};` imports `std::io`,
`std::io::Read` and everything in `std::fs`.

* `Target` : the full path of one import; `a::{self}` and `a` have the same path;
* `Target.key` : the path as text, with a mark for globs;
* `UseTree.targets` : the targets of a tree, from left to right.
-/

namespace TidyUse

structure Target where
  /-- The path of the imported item, or of the module whose items a glob imports. -/
  path : List String
  rename : Option String := none
  isGlob : Bool := false
  /-- The place of each step of the path, and then of the `self` or `*`, if there is one. -/
  spans : List (Option Span) := []

namespace Target

def joinPath (names : List String) : String := "::".intercalate names

/-- What the import is known by. A rename is no part of it. -/
def key (t : Target) : String :=
  if t.isGlob then joinPath t.path ++ "::*" else joinPath t.path

/-- The place of the word that stands for the import: its last name, `self` or `*`. -/
def leafSpan (t : Target) : Option Span := t.spans.getLast?.join

def pathSpans (t : Target) : List (Option Span) := t.spans.take t.path.length

end Target

namespace UseTree

mutual

/-- The targets of a tree that stands below a path whose names stand at `spans`. -/
def targetsBelow (path : List String) (spans : List (Option Span)) : UseTree → List Target
  | glob s => [{ path, isGlob := true, spans := spans ++ [s.span] }]
  | node s [] =>
    [{ path := if s.name == selfName then path else path ++ [s.name]
       rename := s.rename
       spans := spans ++ [s.span] }]
  | node s (c :: cs) => targetsBelowAll (path ++ [s.name]) (spans ++ [s.span]) (c :: cs)

def targetsBelowAll (path : List String) (spans : List (Option Span)) : List UseTree → List Target
  | [] => []
  | t :: ts => targetsBelow path spans t ++ targetsBelowAll path spans ts

end

/-- The targets of a tree. The first step is always a name, also if it reads `self` or `*`. -/
def targets (t : UseTree) : List Target :=
  if t.isLeaf then
    [{ path := [t.name], rename := t.segment.rename, spans := [t.segment.span] }]
  else targetsBelowAll [t.name] [t.segment.span] t.children

theorem targetsBelowAll_eq (path : List String) (spans : List (Option Span)) (ts : List UseTree) :
    targetsBelowAll path spans ts = ts.flatMap (targetsBelow path spans) := by
  induction ts with
  | nil => simp [targetsBelowAll]
  | cons t ts ih => simp [targetsBelowAll, ih]

end UseTree

end TidyUse
