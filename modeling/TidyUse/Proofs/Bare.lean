import Mathlib.Data.List.Basic
import TidyUse.Statement
import TidyUse.Target.Trie
import TidyUse.UseTree.Order

/-!
# Trees without their places

Where a name stands in a document has no influence on what is imported. Trees, targets and
declarations are compared without their places.

* `UseTree.induct` : induction over a tree, with a hypothesis for each child;
* `UseTree.bare`, `Target.bare`, `Statement.bare` : the same without spans and blocks;
* `UseTree.imports` : the targets of a tree without their places; `imports_bare`.
-/

namespace TidyUse

def Segment.bare (s : Segment) : Segment := { s with span := none }

@[simp] theorem Segment.bare_name (s : Segment) : s.bare.name = s.name := rfl

@[simp] theorem Segment.bare_rename (s : Segment) : s.bare.rename = s.rename := rfl

@[simp] theorem Segment.bare_span (s : Segment) : s.bare.span = none := rfl

@[simp] theorem Segment.bare_bare (s : Segment) : s.bare.bare = s.bare := rfl

def Target.bare (t : Target) : Target := { t with spans := [] }

@[simp] theorem Target.bare_path (t : Target) : t.bare.path = t.path := rfl

@[simp] theorem Target.bare_rename (t : Target) : t.bare.rename = t.rename := rfl

@[simp] theorem Target.bare_isGlob (t : Target) : t.bare.isGlob = t.isGlob := rfl

@[simp] theorem Target.bare_spans (t : Target) : t.bare.spans = [] := rfl

@[simp] theorem Target.bare_bare (t : Target) : t.bare.bare = t.bare := rfl

namespace UseTree

/-- Induction over a tree, with a hypothesis for each child. -/
@[induction_eliminator]
theorem induct {P : UseTree → Prop} (glob : ∀ s, P (.glob s))
    (node : ∀ s cs, (∀ c ∈ cs, P c) → P (.node s cs)) (t : UseTree) : P t :=
  @UseTree.rec P (fun cs => ∀ c ∈ cs, P c) node glob (fun _ h => absurd h List.not_mem_nil)
    (fun _ _ hc hcs _ h => (List.mem_cons.1 h).elim (fun e => e ▸ hc) (hcs _)) t

mutual

/-- The tree without the places of its steps. -/
def bare : UseTree → UseTree
  | glob s => glob s.bare
  | node s cs => node s.bare (bareAll cs)

def bareAll : List UseTree → List UseTree
  | [] => []
  | t :: ts => bare t :: bareAll ts

end

theorem bareAll_eq_map (ts : List UseTree) : bareAll ts = ts.map bare := by
  induction ts with
  | nil => rfl
  | cons t ts ih => rw [bareAll, ih, List.map_cons]

@[simp] theorem bare_glob (s : Segment) : (glob s).bare = glob s.bare := by rw [bare]

@[simp] theorem bare_node (s : Segment) (cs : List UseTree) :
    (node s cs).bare = node s.bare (cs.map bare) := by rw [bare, bareAll_eq_map]

@[simp] theorem bare_bare (t : UseTree) : t.bare.bare = t.bare := by
  induction t with
  | glob s => simp
  | node s cs ih =>
    rw [bare_node, bare_node, List.map_map, Segment.bare_bare]
    congr 1
    exact List.map_congr_left ih

@[simp] theorem name_bare (t : UseTree) : t.bare.name = t.name := by
  cases t <;> simp [name, segment]

@[simp] theorem isGlob_bare (t : UseTree) : t.bare.isGlob = t.isGlob := by
  cases t <;> simp [isGlob]

@[simp] theorem isSelf_bare (t : UseTree) : t.bare.isSelf = t.isSelf := by
  match t with
  | glob s => simp [isSelf]
  | node s [] => simp [isSelf]
  | node s (c :: cs) => simp [isSelf]

/-! ## Targets -/

@[simp] theorem targetsBelow_node_cons (path : List String) (spans : List (Option Span))
    (s : Segment) (c : UseTree) (cs : List UseTree) :
    targetsBelow path spans (node s (c :: cs)) =
      (c :: cs).flatMap (targetsBelow (path ++ [s.name]) (spans ++ [s.span])) := by
  rw [targetsBelow, targetsBelowAll_eq]

/-- What a tree below a path imports, without places. -/
def importsBelow (path : List String) (t : UseTree) : List Target :=
  (t.targetsBelow path []).map Target.bare

def imports (t : UseTree) : List Target := t.targets.map Target.bare

theorem map_bare_targetsBelow (path : List String) (spans : List (Option Span)) (t : UseTree) :
    (t.targetsBelow path spans).map Target.bare = t.importsBelow path := by
  induction t generalizing path spans with
  | glob s => simp [importsBelow, targetsBelow, Target.bare]
  | node s cs ih =>
    cases cs with
    | nil => simp [importsBelow, targetsBelow, Target.bare]
    | cons c cs =>
      rw [importsBelow, targetsBelow_node_cons, targetsBelow_node_cons, List.map_flatMap,
        List.map_flatMap]
      refine List.flatMap_congr fun d hd => ?_
      rw [ih d hd, ih d hd]

@[simp] theorem importsBelow_glob (path : List String) (s : Segment) :
    importsBelow path (glob s) = [{ path, isGlob := true }] := by
  simp [importsBelow, targetsBelow, Target.bare]

@[simp] theorem importsBelow_leaf (path : List String) (s : Segment) :
    importsBelow path (node s []) =
      [{ path := if s.name == selfName then path else path ++ [s.name], rename := s.rename }] := by
  simp [importsBelow, targetsBelow, Target.bare]

@[simp] theorem importsBelow_node_cons (path : List String) (s : Segment) (c : UseTree)
    (cs : List UseTree) :
    importsBelow path (node s (c :: cs)) = (c :: cs).flatMap (importsBelow (path ++ [s.name])) := by
  rw [importsBelow, targetsBelow_node_cons, List.map_flatMap]
  exact List.flatMap_congr fun d _ => map_bare_targetsBelow ..

@[simp] theorem imports_glob (s : Segment) :
    imports (glob s) = [{ path := [s.name], rename := s.rename }] := by
  simp [imports, targets, isLeaf, children, name, segment, Target.bare]

@[simp] theorem imports_leaf (s : Segment) :
    imports (node s []) = [{ path := [s.name], rename := s.rename }] := by
  simp [imports, targets, isLeaf, children, name, segment, Target.bare]

@[simp] theorem imports_node_cons (s : Segment) (c : UseTree) (cs : List UseTree) :
    imports (node s (c :: cs)) = (c :: cs).flatMap (importsBelow [s.name]) := by
  have h : (node s (c :: cs)).targets = targetsBelowAll [s.name] [s.span] (c :: cs) := by
    simp [targets, isLeaf, children, name, segment]
  rw [imports, h, targetsBelowAll_eq, List.map_flatMap]
  exact List.flatMap_congr fun d _ => map_bare_targetsBelow ..

theorem importsBelow_bare (path : List String) (t : UseTree) :
    t.bare.importsBelow path = t.importsBelow path := by
  induction t generalizing path with
  | glob s => simp
  | node s cs ih =>
    cases cs with
    | nil => simp
    | cons c cs =>
      rw [bare_node, List.map_cons, importsBelow_node_cons, importsBelow_node_cons,
        ← List.map_cons, List.flatMap_map, Segment.bare_name]
      exact List.flatMap_congr fun d hd => ih d hd _

/-- Places have no influence on what is imported. -/
@[simp] theorem imports_bare (t : UseTree) : t.bare.imports = t.imports := by
  match t with
  | glob s => simp
  | node s [] => simp
  | node s (c :: cs) =>
    rw [bare_node, List.map_cons, imports_node_cons, imports_node_cons, ← List.map_cons,
      List.flatMap_map, Segment.bare_name]
    exact List.flatMap_congr fun d _ => importsBelow_bare _ d

end UseTree

/-- The declaration without its place and its block. -/
def Statement.bare (s : Statement) : Statement :=
  { s with tree := s.tree.bare, span := none, block := none }

end TidyUse
