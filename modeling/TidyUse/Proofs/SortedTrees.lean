import Mathlib.Data.List.Forall2
import TidyUse.Proofs.Order

/-!
# Sorted trees

* `UseTree.EachNode` : a property of siblings, at every node of a tree;
* `UseTree.InOrder`, `UseTree.DistinctKeys` : siblings in order, and siblings that the order tells
  apart; `UseTree.eachNode_inOrder_sort`;
* `UseTree.Reordered` : another tree with the siblings in another order, at any nodes;
  `UseTree.Reordered.sort_eq`;
* `UseTree.sort_canonical` : sorting brings a tree into a form that does not depend on the order in
  which it is written.
-/

namespace TidyUse.UseTree

/-- The children of every node of a tree have a property. -/
inductive EachNode (P : List UseTree → Prop) : UseTree → Prop
  | glob (s : Segment) : EachNode P (.glob s)
  | node {s : Segment} {cs : List UseTree} (here : P cs) (below : ∀ c ∈ cs, EachNode P c) :
    EachNode P (.node s cs)

def InOrder (cs : List UseTree) : Prop := cs.Pairwise fun c d => siblingLe c d = true

/-- The order tells siblings apart. -/
def DistinctKeys (cs : List UseTree) : Prop := (cs.map sortKey).Nodup

theorem keyLe_antisymm {a b : Nat × String} (h : keyLe a b = true) (h' : keyLe b a = true) :
    a = b := by
  unfold keyLe at h h'
  simp only [Bool.or_eq_true, Bool.and_eq_true, decide_eq_true_eq, beq_iff_eq] at h h'
  have hfirst : a.1 = b.1 := by omega
  rcases h with h | ⟨-, h⟩
  · omega
  rcases h' with h' | ⟨-, h'⟩
  · omega
  exact Prod.ext hfirst (String.le_antisymm h h')

theorem inOrder_mergeSort (cs : List UseTree) : InOrder (cs.mergeSort siblingLe) :=
  List.pairwise_mergeSort siblingLe_trans siblingLe_total cs

theorem eachNode_inOrder_sort (t : UseTree) : t.sort.EachNode InOrder := by
  induction t with
  | glob s =>
    rw [sort_glob]
    exact .glob s
  | node s cs ih =>
    rw [sort_node]
    refine .node (inOrder_mergeSort _) fun c hc => ?_
    obtain ⟨d, hd, rfl⟩ := List.mem_map.1 ((List.mergeSort_perm _ _).mem_iff.1 hc)
    exact ih d hd

theorem map_sortKey_map_sort (cs : List UseTree) : (cs.map sort).map sortKey = cs.map sortKey := by
  rw [List.map_map]
  apply List.map_congr_left
  intro c _
  exact sortKey_sort c

/-- Siblings that the order tells apart can be sorted in one way only. -/
theorem DistinctKeys.mergeSort_eq {cs ds : List UseTree} (h : DistinctKeys cs) (hp : cs.Perm ds) :
    cs.mergeSort siblingLe = ds.mergeSort siblingLe := by
  have hperm : (cs.mergeSort siblingLe).Perm (ds.mergeSort siblingLe) :=
    (List.mergeSort_perm cs _).trans (hp.trans (List.mergeSort_perm ds _).symm)
  refine hperm.eq_of_pairwise (fun c d hc hd hcd hdc => ?_) (inOrder_mergeSort cs)
    (inOrder_mergeSort ds)
  have hc' : c ∈ cs := (List.mergeSort_perm cs _).mem_iff.1 hc
  have hd' : d ∈ cs := hp.mem_iff.2 ((List.mergeSort_perm ds _).mem_iff.1 hd)
  exact List.inj_on_of_nodup_map h hc' hd' (keyLe_antisymm hcd hdc)

/-! ## Trees in another order -/

/-- The second tree is the first with the children of some nodes in another order. Children are
reordered among themselves after what is below them. -/
inductive Reordered : UseTree → UseTree → Prop
  | glob (s : Segment) : Reordered (.glob s) (.glob s)
  | node (s : Segment) {cs ds es : List UseTree} (below : List.Forall₂ Reordered cs ds)
    (here : ds.Perm es) : Reordered (.node s cs) (.node s es)

theorem map_sort_eq_of_forall₂ {cs ds : List UseTree} (h : List.Forall₂ Reordered cs ds)
    (hsort : ∀ c ∈ cs, ∀ d, Reordered c d → d.sort = c.sort) : ds.map sort = cs.map sort := by
  induction h with
  | nil => rfl
  | cons hcd _ ih =>
    rw [List.map_cons, List.map_cons, hsort _ List.mem_cons_self _ hcd,
      ih fun c hc => hsort c (List.mem_cons_of_mem _ hc)]

theorem Reordered.sort_eq {t u : UseTree} (h : Reordered t u) (hkeys : t.EachNode DistinctKeys) :
    u.sort = t.sort := by
  induction t generalizing u with
  | glob s =>
    cases h
    rfl
  | node s cs ih =>
    cases h with
    | node _ below here =>
      rename_i ds es
      cases hkeys with
      | node hkeys hbelow =>
        have hmap : ds.map sort = cs.map sort :=
          map_sort_eq_of_forall₂ below fun c hc d hcd => ih c hc hcd (hbelow c hc)
        -- sorted subtrees keep their keys, so that the order still tells them apart
        have hsorted : DistinctKeys (cs.map sort) := by
          unfold DistinctKeys
          rw [map_sortKey_map_sort]
          exact hkeys
        rw [sort_node, sort_node, hsorted.mergeSort_eq (hmap ▸ here.map sort)]

/-- Sorting a tree changes nothing but the order of siblings: it keeps the targets, with their
places, and the canonical path. A sorted tree is in order at every node and stays as it is. Where
the order tells siblings apart, the sorted tree does not depend on how they were written. -/
theorem sort_canonical (t : UseTree) :
    t.sort.targets.Perm t.targets ∧ t.sort.sort = t.sort ∧ t.sort.EachNode InOrder ∧
      t.sort.canonicalPath = t.canonicalPath ∧
      (t.EachNode DistinctKeys → ∀ u, Reordered t u → u.sort = t.sort) :=
  ⟨targets_sort_perm t, sort_sort t, eachNode_inOrder_sort t, canonicalPath_sort t,
    fun hkeys _ h => h.sort_eq hkeys⟩

def plainStep (name : String) : Segment := { name }

/-- The tree of `std::{io::{Read, self}, self::a, self, *}`: a `self` as a leaf and as the start of
a path. -/
def sampleSelves : UseTree :=
  .node (plainStep "std")
    [.node (plainStep "io") [.node (plainStep "Read") [], .node (plainStep "self") []],
      .node (plainStep "self") [.node (plainStep "a") []], .node (plainStep "self") [],
      .glob (plainStep "*")]

/-- The tree of `std::{*, self, self::a, io::{self, Read}}`. -/
def sampleTurned : UseTree :=
  .node (plainStep "std")
    [.glob (plainStep "*"), .node (plainStep "self") [],
      .node (plainStep "self") [.node (plainStep "a") []],
      .node (plainStep "io") [.node (plainStep "self") [], .node (plainStep "Read") []]]

theorem eachNode_distinctKeys_sampleSelves : sampleSelves.EachNode DistinctKeys := by
  have leaf : ∀ name, (node (plainStep name) []).EachNode DistinctKeys :=
    fun name => .node List.nodup_nil fun c hc => absurd hc List.not_mem_nil
  refine .node (by unfold DistinctKeys; decide) (List.forall_mem_cons.2 ⟨?_, ?_⟩)
  · exact .node (by unfold DistinctKeys; decide)
      (List.forall_mem_cons.2 ⟨leaf _, List.forall_mem_singleton.2 (leaf _)⟩)
  · refine List.forall_mem_cons.2 ⟨?_, List.forall_mem_cons.2 ⟨leaf _,
      List.forall_mem_singleton.2 (.glob _)⟩⟩
    exact .node (by unfold DistinctKeys; decide) (List.forall_mem_singleton.2 (leaf _))

theorem reordered_sampleTurned : Reordered sampleSelves sampleTurned := by
  have leaf : ∀ name, Reordered (node (plainStep name) []) (node (plainStep name) []) :=
    fun name => .node _ .nil (List.Perm.refl [])
  have turned : Reordered
      (node (plainStep "io") [.node (plainStep "Read") [], .node (plainStep "self") []])
      (node (plainStep "io") [.node (plainStep "self") [], .node (plainStep "Read") []]) :=
    .node _ (.cons (leaf _) (.cons (leaf _) .nil)) (List.Perm.swap _ _ _)
  exact .node _ (.cons turned (.cons (.node _ (.cons (leaf _) .nil) (List.Perm.refl _))
    (.cons (leaf _) (.cons (.glob _) .nil)))) (List.reverse_perm _).symm

theorem sort_canonical_sampleSelves :
    sampleSelves.EachNode DistinctKeys ∧ Reordered sampleSelves sampleTurned ∧
      sampleTurned.sort = sampleSelves.sort :=
  ⟨eachNode_distinctKeys_sampleSelves, reordered_sampleTurned,
    (sort_canonical sampleSelves).2.2.2.2 eachNode_distinctKeys_sampleSelves sampleTurned
      reordered_sampleTurned⟩

end TidyUse.UseTree
