import TidyUse.Target

/-!
# Trees from targets

Targets with a common first name are collected in a prefix tree, which is then read as a use tree.

* `Trie` : for each name, what is imported there and what lies below, by name;
* `Trie.insert` : adds a target; a later import of the same path takes the place of an earlier one;
* `UseTree.ofTargets` : the tree of some targets; `UseTree.build` refuses targets without a name or
  with different first names.
-/

namespace TidyUse

/-- A name in a prefix tree. -/
inductive Trie
  /-- `target` tells whether the name itself is imported, and under which name; `hasGlob` whether
  everything below is; the tries of the names below are in ascending order. -/
  | node (span : Option Span) (target : Option (Option String)) (hasGlob : Bool)
      (below : List (String × Trie))

namespace Trie

def empty (span : Option Span) : Trie := node span none false []

/-- Changes the entry of `name` in a list with ascending names, or makes one. -/
def alter (name : String) (f : Option Trie → Trie) : List (String × Trie) → List (String × Trie)
  | [] => [(name, f none)]
  | (other, t) :: rest =>
    if name = other then (other, f (some t)) :: rest
    else if name < other then (name, f none) :: (other, t) :: rest
    else (other, t) :: alter name f rest

def mark (isGlob : Bool) (rename : Option String) : Trie → Trie
  | node span target hasGlob below =>
    if isGlob then node span target true below else node span (some rename) hasGlob below

/-- Adds an import along a path of names, each with its place. -/
def insertAt (isGlob : Bool) (rename : Option String) :
    List (String × Option Span) → Trie → Trie
  | [], t => t.mark isGlob rename
  | (name, span) :: steps, node s target hasGlob below =>
    node s target hasGlob
      (alter name (fun t => insertAt isGlob rename steps (t.getD (empty span))) below)

/-- The names of a target's path behind the first, each with its place, if that is known. -/
def steps (t : Target) : List (String × Option Span) :=
  (t.path.zip (t.spans ++ List.replicate t.path.length none)).tail

def insert (t : Target) (trie : Trie) : Trie := trie.insertAt t.isGlob t.rename (steps t)

def globs (hasGlob : Bool) : List UseTree :=
  if hasGlob then [.glob { name := UseTree.globName }] else []

mutual

/-- The use tree of a name. A name that is imported and has something below is imported by a
`self`, and a glob stands last. -/
def toTree (name : String) : Trie → UseTree
  | node span none hasGlob below =>
    .node ⟨name, none, span⟩ (toTrees below ++ globs hasGlob)
  | node span (some rename) false [] => .node ⟨name, rename, span⟩ []
  | node span (some rename) hasGlob below =>
    .node ⟨name, none, span⟩
      (.node ⟨UseTree.selfName, rename, none⟩ [] :: (toTrees below ++ globs hasGlob))

def toTrees : List (String × Trie) → List UseTree
  | [] => []
  | (name, t) :: rest => toTree name t :: toTrees rest

end

end Trie

namespace UseTree

/-- The tree of some targets with the first name of the first one. -/
def ofTargets (first : Target) (others : List Target) : UseTree :=
  let root := Trie.empty first.spans.head?.join
  let trie := (first :: others).foldl (fun trie t => trie.insert t) root
  trie.toTree (first.path.headD "")

inductive BuildError
  | emptyPath
  | differentRoots (first second : String)

def BuildError.message : BuildError → String
  | emptyPath => "Flat import has an empty path"
  | differentRoots first second =>
    "Cannot build one tree from roots " ++ Text.quoted first ++ " and " ++ Text.quoted second

/-- The tree of targets with a common first name, if there are any targets. -/
def build (ts : List Target) : Except BuildError (Option UseTree) :=
  match ts with
  | [] => .ok none
  | first :: others =>
    if ts.any fun t => t.path.isEmpty then .error .emptyPath
    else
      let root := first.path.headD ""
      match others.find? fun t => t.path.headD "" != root with
      | some other => .error (.differentRoots root (other.path.headD ""))
      | none => .ok (some (ofTargets first others))

end UseTree

end TidyUse
