import Mathlib.Data.List.Perm.Basic
import Mathlib.Data.List.Sort
import Mathlib.Data.String.Basic
import TidyUse.Proofs.Bare
import TidyUse.Statement

/-!
# Sorting trees and declarations

* `UseTree.siblingLe_trans`, `UseTree.siblingLe_total` : siblings are in a total preorder;
* `UseTree.sort_sort` : a sorted tree stays as it is; `UseTree.targets_sort_perm` : sorting keeps the
  targets of a tree;
* `Statement.le_trans`, `Statement.le_total` : the same for declarations;
* `mergeSort_eq_of_classes` : a stable sort gives the one sorted list in which the members of each
  class stand in their old order.
-/

namespace TidyUse

/-! ## Stable sorting -/

section Stable

variable {α : Type} {le : α → α → Bool}

def sameRank (le : α → α → Bool) (a b : α) : Bool := le a b && le b a

theorem filter_sameRank_mergeSort (trans : ∀ a b c, le a b = true → le b c = true → le a c = true)
    (total : ∀ a b, (le a b || le b a) = true) (l : List α) (x : α) :
    (l.mergeSort le).filter (sameRank le x) = l.filter (sameRank le x) := by
  have hp : (l.filter (sameRank le x)).Pairwise fun a b => le a b = true := by
    refine List.pairwise_of_forall_mem_list fun a ha b hb => ?_
    have ha' := (List.mem_filter.1 ha).2
    have hb' := (List.mem_filter.1 hb).2
    simp only [sameRank, Bool.and_eq_true] at ha' hb'
    exact trans _ _ _ ha'.2 hb'.1
  have hs := List.sublist_mergeSort trans total hp (List.filter_sublist (p := sameRank le x))
  have hf := hs.filter (sameRank le x)
  rw [List.filter_filter] at hf
  simp only [Bool.and_self] at hf
  refine (hf.eq_of_length ?_).symm
  exact ((List.mergeSort_perm l le).filter (sameRank le x)).length_eq.symm

/-- Sorted lists are equal if their members of each rank are. -/
theorem eq_of_sorted_of_classes (refl : ∀ a, le a a = true) {l m : List α}
    (hl : l.Pairwise fun a b => le a b = true) (hm : m.Pairwise fun a b => le a b = true)
    (h : ∀ x, l.filter (sameRank le x) = m.filter (sameRank le x)) : l = m := by
  have hself : ∀ a, sameRank le a a = true := fun a => by simp [sameRank, refl]
  induction l generalizing m with
  | nil =>
    cases m with
    | nil => rfl
    | cons b m => simpa [hself] using h b
  | cons a l ih =>
    cases m with
    | nil => simpa [hself] using h a
    | cons b m =>
      -- each head occurs in the other list, so the two heads have one rank
      have hab : le a b = true := by
        have hb : b ∈ (a :: l).filter (sameRank le b) := by rw [h b]; simp [hself]
        rcases List.mem_cons.1 (List.mem_filter.1 hb).1 with rfl | hb'
        · exact refl _
        · exact List.rel_of_pairwise_cons hl hb'
      have hba : le b a = true := by
        have ha : a ∈ (b :: m).filter (sameRank le a) := by rw [← h a]; simp [hself]
        rcases List.mem_cons.1 (List.mem_filter.1 ha).1 with rfl | ha'
        · exact refl _
        · exact List.rel_of_pairwise_cons hm ha'
      have hsame : sameRank le a b = true := by simp [sameRank, hab, hba]
      have heq : a = b := by
        have ha := h a
        rw [List.filter_cons_of_pos (hself a), List.filter_cons_of_pos hsame] at ha
        exact (List.cons.inj ha).1
      subst heq
      congr 1
      refine ih hl.of_cons hm.of_cons fun x => ?_
      have hx := h x
      rw [List.filter_cons, List.filter_cons] at hx
      split at hx
      · exact (List.cons.inj hx).2
      · exact hx

/-- A stable sort gives the sorted list whose members of each rank stand in their old order. -/
theorem mergeSort_eq_of_classes (trans : ∀ a b c, le a b = true → le b c = true → le a c = true)
    (total : ∀ a b, (le a b || le b a) = true) {l m : List α}
    (hm : m.Pairwise fun a b => le a b = true)
    (h : ∀ x, l.filter (sameRank le x) = m.filter (sameRank le x)) : l.mergeSort le = m := by
  refine eq_of_sorted_of_classes (fun a => by simpa using total a a)
    (List.pairwise_mergeSort trans total l) hm fun x => ?_
  rw [filter_sameRank_mergeSort trans total, h]

end Stable

/-! ## Trees -/

namespace UseTree

theorem keyLe_trans {a b c : Nat × String} (h : keyLe a b = true) (h' : keyLe b c = true) :
    keyLe a c = true := by
  simp only [keyLe, Bool.or_eq_true, Bool.and_eq_true, decide_eq_true_eq, beq_iff_eq] at *
  rcases h with h | ⟨h, hs⟩ <;> rcases h' with h' | ⟨h', hs'⟩
  · exact Or.inl (by omega)
  · exact Or.inl (by omega)
  · exact Or.inl (by omega)
  · exact Or.inr ⟨by omega, String.le_trans hs hs'⟩

theorem keyLe_total (a b : Nat × String) : (keyLe a b || keyLe b a) = true := by
  simp only [keyLe, Bool.or_eq_true, Bool.and_eq_true, decide_eq_true_eq, beq_iff_eq]
  rcases Nat.lt_trichotomy a.1 b.1 with h | h | h
  · exact Or.inl (Or.inl h)
  · rcases String.le_total a.2 b.2 with hs | hs
    · exact Or.inl (Or.inr ⟨h, hs⟩)
    · exact Or.inr (Or.inr ⟨h.symm, hs⟩)
  · exact Or.inr (Or.inl h)

theorem siblingLe_trans (s t u : UseTree) (h : siblingLe s t = true) (h' : siblingLe t u = true) :
    siblingLe s u = true := keyLe_trans h h'

theorem siblingLe_total (s t : UseTree) : (siblingLe s t || siblingLe t s) = true :=
  keyLe_total ..

@[simp] theorem sort_glob (s : Segment) : (glob s).sort = glob s := by rw [sort]

@[simp] theorem sort_node (s : Segment) (cs : List UseTree) :
    (node s cs).sort = node s ((cs.map sort).mergeSort siblingLe) := by
  rw [sort, sortAll_eq_map]

theorem sort_leaf (s : Segment) : (node s []).sort = node s [] := by
  rw [sort_node, List.map_nil, List.mergeSort_nil]

@[simp] theorem segment_sort (t : UseTree) : t.sort.segment = t.segment := by
  cases t <;> simp [segment]

@[simp] theorem name_sort (t : UseTree) : t.sort.name = t.name := by
  rw [name, segment_sort, name]

@[simp] theorem isGlob_sort (t : UseTree) : t.sort.isGlob = t.isGlob := by
  cases t <;> simp [isGlob]

theorem isSelf_node (s : Segment) (cs : List UseTree) :
    (node s cs).isSelf = (cs.isEmpty && s.name == selfName) := by
  cases cs <;> simp [isSelf]

@[simp] theorem isSelf_sort (t : UseTree) : t.sort.isSelf = t.isSelf := by
  cases t with
  | glob s => simp
  | node s cs =>
    have h := (List.mergeSort_perm (cs.map sort) siblingLe).isEmpty_eq
    rw [sort_node, isSelf_node, isSelf_node, h, List.isEmpty_map]

@[simp] theorem sortKey_sort (t : UseTree) : t.sort.sortKey = t.sortKey := by
  simp [sortKey]

@[simp] theorem sortKey_bare (t : UseTree) : t.bare.sortKey = t.sortKey := by
  simp [sortKey]

theorem sort_bare (t : UseTree) : t.bare.sort = t.sort.bare := by
  induction t with
  | glob s => simp
  | node s cs ih =>
    rw [bare_node, sort_node, sort_node, bare_node, List.map_map,
      List.map_mergeSort (s := siblingLe) (fun a _ b _ => by simp [siblingLe]), List.map_map]
    congr 2
    exact List.map_congr_left ih

/-- Sorting a sorted tree changes nothing. -/
@[simp] theorem sort_sort (t : UseTree) : t.sort.sort = t.sort := by
  induction t with
  | glob s => simp
  | node s cs ih =>
    rw [sort_node, sort_node]
    congr 1
    have hmap : (((cs.map sort).mergeSort siblingLe).map sort) =
        (cs.map sort).mergeSort siblingLe := by
      refine (List.map_congr_left fun c hc => ?_).trans (List.map_id _)
      obtain ⟨d, hd, rfl⟩ := List.mem_map.1 ((List.mergeSort_perm _ _).mem_iff.1 hc)
      exact ih d hd
    rw [hmap]
    exact List.mergeSort_of_pairwise (List.pairwise_mergeSort siblingLe_trans siblingLe_total _)

theorem canonicalPath_sort (t : UseTree) : t.sort.canonicalPath = t.canonicalPath := by
  rw [canonicalPath, sort_sort, canonicalPath]

theorem targetsBelow_node {path : List String} {spans : List (Option Span)} {s : Segment}
    {cs : List UseTree} (h : cs ≠ []) :
    targetsBelow path spans (node s cs) =
      cs.flatMap (targetsBelow (path ++ [s.name]) (spans ++ [s.span])) := by
  obtain ⟨c, cs, rfl⟩ := List.exists_cons_of_ne_nil h
  exact targetsBelow_node_cons ..

theorem targets_node {s : Segment} {cs : List UseTree} (h : cs ≠ []) :
    targets (node s cs) = cs.flatMap (targetsBelow [s.name] [s.span]) := by
  obtain ⟨c, cs, rfl⟩ := List.exists_cons_of_ne_nil h
  exact targetsBelowAll_eq ..

theorem mergeSort_map_sort_ne_nil {cs : List UseTree} (h : cs ≠ []) :
    (cs.map sort).mergeSort siblingLe ≠ [] := by
  intro hm
  have hl := (List.mergeSort_perm (cs.map sort) siblingLe).length_eq
  rw [hm, List.length_map] at hl
  exact h (List.length_eq_zero_iff.1 hl.symm)

theorem flatMap_mergeSort_map_sort_perm {β : Type} {f : UseTree → List β} {cs : List UseTree}
    (ih : ∀ c ∈ cs, (f c.sort).Perm (f c)) :
    (((cs.map sort).mergeSort siblingLe).flatMap f).Perm (cs.flatMap f) := by
  refine ((List.mergeSort_perm _ _).flatMap_right f).trans ?_
  rw [List.flatMap_map]
  exact List.Perm.flatMap_left cs ih

theorem targetsBelow_sort_perm (path : List String) (spans : List (Option Span)) (t : UseTree) :
    (t.sort.targetsBelow path spans).Perm (t.targetsBelow path spans) := by
  induction t generalizing path spans with
  | glob s => rw [sort_glob]
  | node s cs ih =>
    rcases eq_or_ne cs [] with rfl | h
    · rw [sort_leaf]
    · rw [sort_node, targetsBelow_node (mergeSort_map_sort_ne_nil h), targetsBelow_node h]
      exact flatMap_mergeSort_map_sort_perm fun c hc => ih c hc _ _

/-- Sorting a tree keeps its targets. -/
theorem targets_sort_perm (t : UseTree) : t.sort.targets.Perm t.targets := by
  cases t with
  | glob s => rw [sort_glob]
  | node s cs =>
    rcases eq_or_ne cs [] with rfl | h
    · rw [sort_leaf]
    · rw [sort_node, targets_node (mergeSort_map_sort_ne_nil h), targets_node h]
      exact flatMap_mergeSort_map_sort_perm fun c _ => targetsBelow_sort_perm _ _ c

theorem imports_sort_perm (t : UseTree) : (t.sort.imports).Perm t.imports :=
  (targets_sort_perm t).map Target.bare

end UseTree

/-! ## Declarations -/

namespace Statement

theorem le_trans (s t u : Statement) (h : le s t = true) (h' : le t u = true) :
    le s u = true := by
  simp only [le, Bool.or_eq_true, Bool.and_eq_true, decide_eq_true_eq, beq_iff_eq] at *
  rcases h with h | ⟨h, hs⟩ <;> rcases h' with h' | ⟨h', hs'⟩
  · exact Or.inl (lt_trans h h')
  · exact Or.inl (h' ▸ h)
  · exact Or.inl (h ▸ h')
  · exact Or.inr ⟨h.trans h', String.le_trans hs hs'⟩

theorem le_total (s t : Statement) : (le s t || le t s) = true := by
  simp only [le, Bool.or_eq_true, Bool.and_eq_true, decide_eq_true_eq, beq_iff_eq]
  rcases lt_trichotomy s.sortKey.1 t.sortKey.1 with h | h | h
  · exact Or.inl (Or.inl h)
  · rcases String.le_total s.sortKey.2 t.sortKey.2 with hs | hs
    · exact Or.inl (Or.inr ⟨h, hs⟩)
    · exact Or.inr (Or.inr ⟨h.symm, hs⟩)
  · exact Or.inr (Or.inl h)

theorem sortKey_eq_of_sameRank {s t : Statement} (h : sameRank le s t = true) :
    s.sortKey = t.sortKey := by
  simp only [sameRank, le, Bool.or_eq_true, Bool.and_eq_true, decide_eq_true_eq, beq_iff_eq] at h
  obtain ⟨h | ⟨h, hs⟩, h' | ⟨h', hs'⟩⟩ := h
  · exact absurd h' (lt_asymm h)
  · exact absurd h'.symm (ne_of_lt h)
  · exact absurd h.symm (ne_of_lt h')
  · exact Prod.ext h (String.le_antisymm hs hs')

end Statement

end TidyUse
