import Mathlib.Data.List.Pairwise
import Mathlib.Data.List.Perm.Basic
import Mathlib.Data.String.Basic
import TidyUse.Proofs.Bare

/-!
# What a prefix tree holds

* `Trie.imports` : the imports collected in a prefix tree;
* `Trie.imports_insertAt_perm` : an insertion adds one import;
* `Trie.importsBelow_toTree` : reading a prefix tree as a use tree keeps its imports;
* `Trie.insertAt_comm` : insertions of different imports commute;
* `UseTree.imports_ofTargets_perm` : the tree of some targets imports these targets;
* `UseTree.bare_ofTargets_perm` : the tree does not depend on their order.
-/

namespace TidyUse

/-- The path reads `a::self`, with nothing behind it: as a tree that would import `a`. -/
def Target.EndsInSelf (t : Target) : Prop :=
  t.isGlob = false ∧ 2 ≤ t.path.length ∧ t.path.getLast? = some UseTree.selfName

namespace Trie

/-- Induction over a prefix tree, with a hypothesis for each name below. -/
@[induction_eliminator]
theorem induct {P : Trie → Prop}
    (node : ∀ span target hasGlob below, (∀ e ∈ below, P e.2) → P (.node span target hasGlob below))
    (t : Trie) : P t :=
  @Trie.rec P (fun below => ∀ e ∈ below, P e.2) (fun e => P e.2) node
    (fun _ h => absurd h List.not_mem_nil)
    (fun _ _ he hes _ h => (List.mem_cons.1 h).elim (fun eq => eq ▸ he) (hes _))
    (fun _ _ h => h) t

mutual

def imports (path : List String) : Trie → List Target
  | node _ target hasGlob below =>
    (target.map fun rename => ({ path, rename } : Target)).toList ++ importsAll path below ++
      if hasGlob then [{ path, isGlob := true }] else []

def importsAll (path : List String) : List (String × Trie) → List Target
  | [] => []
  | (name, t) :: rest => imports (path ++ [name]) t ++ importsAll path rest

end

theorem importsAll_eq (path : List String) (below : List (String × Trie)) :
    importsAll path below = below.flatMap fun e => e.2.imports (path ++ [e.1]) := by
  induction below with
  | nil => rfl
  | cons e below ih => rw [importsAll, ih, List.flatMap_cons]

theorem imports_node (path : List String) (span : Option Span) (target : Option (Option String))
    (hasGlob : Bool) (below : List (String × Trie)) :
    (node span target hasGlob below).imports path =
      (target.map fun rename => ({ path, rename } : Target)).toList ++
        (below.flatMap fun e => e.2.imports (path ++ [e.1])) ++
        if hasGlob then [{ path, isGlob := true }] else [] := by
  rw [imports, importsAll_eq]

@[simp] theorem imports_empty (path : List String) (span : Option Span) :
    (empty span).imports path = [] := by
  simp [empty, imports_node]

theorem prefix_of_mem_imports {path : List String} {t : Trie} {i : Target}
    (h : i ∈ t.imports path) : path <+: i.path := by
  induction t generalizing path with
  | node span target hasGlob below ih =>
    rw [imports_node, List.mem_append, List.mem_append] at h
    rcases h with (h | h) | h
    · obtain ⟨r, -, rfl⟩ : ∃ r, target = some r ∧ i = { path, rename := r } := by
        cases target with
        | none => simp at h
        | some r => exact ⟨r, rfl, by simpa using h⟩
      exact List.prefix_rfl
    · obtain ⟨e, he, hi⟩ := List.mem_flatMap.1 h
      exact (List.prefix_append _ _).trans (ih e he hi)
    · cases hasGlob with
      | false => simp at h
      | true =>
        have hi : i = { path, isGlob := true } := by simpa using h
        exact hi ▸ List.prefix_rfl

/-! ## Insertion -/

theorem flatMap_alter_perm {β : Type} {name : String} {f : Option Trie → Trie}
    {below : List (String × Trie)} {F : String × Trie → List β} {x : β}
    (hnone : (F (name, f none)).Perm [x])
    (hsome : ∀ t, (name, t) ∈ below → (F (name, f (some t))).Perm (x :: F (name, t))) :
    ((alter name f below).flatMap F).Perm (x :: below.flatMap F) := by
  induction below with
  | nil => simpa [alter] using hnone
  | cons e below ih =>
    obtain ⟨other, t⟩ := e
    rw [alter]
    split
    · rename_i heq
      subst heq
      rw [List.flatMap_cons, List.flatMap_cons, ← List.cons_append]
      exact (hsome t List.mem_cons_self).append_right _
    · split
      · rw [List.flatMap_cons]
        exact hnone.append_right _
      · rw [List.flatMap_cons, List.flatMap_cons]
        refine ((ih fun u hu => hsome u (List.mem_cons_of_mem _ hu)).append_left _).trans ?_
        exact List.perm_middle

def names (steps : List (String × Option Span)) : List String := steps.map Prod.fst

@[simp] theorem names_nil : names [] = [] := rfl

@[simp] theorem names_cons (name : String) (span : Option Span)
    (steps : List (String × Option Span)) : names ((name, span) :: steps) = name :: names steps :=
  rfl

/-- An insertion adds one import, if none of its path and kind is there. -/
theorem imports_insertAt_perm (isGlob : Bool) (rename : Option String) (hr : isGlob → rename = none)
    (steps : List (String × Option Span)) (path : List String) (t : Trie)
    (hnew : ∀ i ∈ t.imports path, ¬ (i.path = path ++ names steps ∧ i.isGlob = isGlob)) :
    ((t.insertAt isGlob rename steps).imports path).Perm
      ({ path := path ++ names steps, rename, isGlob } :: t.imports path) := by
  induction steps generalizing path t with
  | nil =>
    obtain ⟨span, target, hasGlob, below⟩ := t
    rw [names_nil, List.append_nil] at *
    rw [insertAt, mark]
    cases isGlob with
    | true =>
      have hg : hasGlob = false := by
        cases hasGlob with
        | false => rfl
        | true => exact absurd ⟨rfl, rfl⟩ (hnew { path, isGlob := true } (by simp [imports_node]))
      subst hg
      simp only [hr rfl, imports_node, if_true, Bool.false_eq_true, if_false, List.append_nil]
      exact List.perm_append_singleton _ _
    | false =>
      have ht : target = none := by
        cases target with
        | none => rfl
        | some r => exact absurd ⟨rfl, rfl⟩ (hnew { path, rename := r } (by simp [imports_node]))
      subst ht
      simp [imports_node]
  | cons step steps ih =>
    obtain ⟨name, span⟩ := step
    obtain ⟨s, target, hasGlob, below⟩ := t
    have hpath : path ++ names ((name, span) :: steps) = path ++ [name] ++ names steps := by simp
    rw [insertAt, imports_node, imports_node, hpath]
    have hperm : ((alter name (fun u => insertAt isGlob rename steps (u.getD (empty span)))
          below).flatMap fun e => e.2.imports (path ++ [e.1])).Perm
        ({ path := path ++ [name] ++ names steps, rename, isGlob } ::
          below.flatMap fun e => e.2.imports (path ++ [e.1])) := by
      refine flatMap_alter_perm ?_ fun u hu => ?_
      · simpa using ih (path ++ [name]) (empty span) (by simp)
      · refine ih (path ++ [name]) u fun i hi => ?_
        rw [← hpath]
        refine hnew i ?_
        rw [imports_node]
        exact List.mem_append_left _ (List.mem_append_right _ (List.mem_flatMap.2 ⟨_, hu, hi⟩))
    refine ((hperm.append_left _).trans List.perm_middle).append_right _

/-! ## Reading a prefix tree -/

/-- Something is imported at every name. -/
inductive Live : Trie → Prop
  | node {span : Option Span} {target : Option (Option String)} {hasGlob : Bool}
      {below : List (String × Trie)} (here : target.isSome ∨ hasGlob ∨ below ≠ [])
      (there : ∀ e ∈ below, e.2.Live) : Live (.node span target hasGlob below)

/-- The names below, with their prefix trees. -/
def entries : Trie → List (String × Trie)
  | node _ _ _ below => below

theorem Live.entries {t : Trie} (h : t.Live) : ∀ e ∈ t.entries, e.2.Live := by
  cases h with
  | node _ there => exact there

theorem mem_alter {name : String} {f : Option Trie → Trie} {below : List (String × Trie)}
    {e : String × Trie} (h : e ∈ alter name f below) :
    e ∈ below ∨ e = (name, f none) ∨ ∃ t, (name, t) ∈ below ∧ e = (name, f (some t)) := by
  induction below with
  | nil => exact Or.inr (Or.inl (by simpa [alter] using h))
  | cons d below ih =>
    obtain ⟨other, t⟩ := d
    rw [alter] at h
    split at h
    · rename_i heq
      subst heq
      rcases List.mem_cons.1 h with rfl | h
      · exact Or.inr (Or.inr ⟨t, List.mem_cons_self, rfl⟩)
      · exact Or.inl (List.mem_cons_of_mem _ h)
    · split at h
      · rcases List.mem_cons.1 h with rfl | h
        · exact Or.inr (Or.inl rfl)
        · exact Or.inl h
      · rcases List.mem_cons.1 h with rfl | h
        · exact Or.inl List.mem_cons_self
        · rcases ih h with h | h | ⟨u, hu, rfl⟩
          · exact Or.inl (List.mem_cons_of_mem _ h)
          · exact Or.inr (Or.inl h)
          · exact Or.inr (Or.inr ⟨u, List.mem_cons_of_mem _ hu, rfl⟩)

theorem alter_ne_nil (name : String) (f : Option Trie → Trie) (below : List (String × Trie)) :
    alter name f below ≠ [] := by
  cases below with
  | nil => simp [alter]
  | cons e below =>
    rw [alter]
    split
    · simp
    · split <;> simp

/-- An insertion leaves nothing idle. -/
theorem live_insertAt (isGlob : Bool) (rename : Option String)
    (steps : List (String × Option Span)) (t : Trie) (h : ∀ e ∈ t.entries, e.2.Live) :
    (t.insertAt isGlob rename steps).Live := by
  induction steps generalizing t with
  | nil =>
    obtain ⟨span, target, hasGlob, below⟩ := t
    rw [insertAt, mark]
    split
    · exact .node (Or.inr (Or.inl rfl)) h
    · exact .node (Or.inl rfl) h
  | cons step steps ih =>
    obtain ⟨name, span⟩ := step
    obtain ⟨s, target, hasGlob, below⟩ := t
    rw [insertAt]
    refine .node (Or.inr (Or.inr (alter_ne_nil _ _ _))) fun e he => ?_
    rcases mem_alter he with he | rfl | ⟨u, hu, rfl⟩
    · exact h e he
    · exact ih (empty span) (by simp [empty, Trie.entries])
    · exact ih u (h _ hu).entries

theorem toTrees_eq_map (below : List (String × Trie)) :
    toTrees below = below.map fun e => e.2.toTree e.1 := by
  induction below with
  | nil => rfl
  | cons e below ih => rw [toTrees, ih, List.map_cons]

def childTrees : Trie → List UseTree
  | node _ none hasGlob below => toTrees below ++ globs hasGlob
  | node _ (some _) false [] => []
  | node _ (some rename) hasGlob below =>
    .node ⟨UseTree.selfName, rename, none⟩ [] :: (toTrees below ++ globs hasGlob)

def headSegment (name : String) : Trie → Segment
  | node span none _ _ => ⟨name, none, span⟩
  | node span (some rename) false [] => ⟨name, rename, span⟩
  | node span (some _) _ _ => ⟨name, none, span⟩

theorem toTree_eq (name : String) (t : Trie) :
    t.toTree name = .node (t.headSegment name) t.childTrees := by
  match t with
  | node span none hasGlob below => rw [toTree, headSegment, childTrees]
  | node span (some rename) false [] => rw [toTree, headSegment, childTrees]
  | node span (some rename) true [] => rw [toTree, headSegment, childTrees] <;> simp
  | node span (some rename) hasGlob (e :: below) => rw [toTree, headSegment, childTrees] <;> simp

@[simp] theorem headSegment_name (name : String) (t : Trie) : (t.headSegment name).name = name := by
  match t with
  | node span none hasGlob below => rfl
  | node span (some rename) false [] => rfl
  | node span (some rename) true [] => rfl
  | node span (some rename) hasGlob (e :: below) => cases hasGlob <;> rfl

theorem childTrees_some_cons (span : Option Span) (rename : Option String) (hasGlob : Bool)
    (e : String × Trie) (below : List (String × Trie)) :
    (node span (some rename) hasGlob (e :: below)).childTrees =
      .node ⟨UseTree.selfName, rename, none⟩ [] :: (toTrees (e :: below) ++ globs hasGlob) := by
  cases hasGlob <;> rw [childTrees] <;> simp

/-- A name is the end of its path if it is imported and nothing lies below. -/
theorem childTrees_eq_nil {t : Trie} (hl : t.Live) (h : t.childTrees = []) :
    ∃ span rename, t = node span (some rename) false [] := by
  match t with
  | node span none hasGlob below =>
    cases hl with
    | node here _ =>
      rw [childTrees, List.append_eq_nil_iff, toTrees_eq_map, List.map_eq_nil_iff] at h
      obtain ⟨rfl, hg⟩ := h
      rcases here with here | here | here
      · simp at here
      · simp [globs, here] at hg
      · exact absurd rfl here
  | node span (some rename) false [] => exact ⟨span, rename, rfl⟩
  | node span (some rename) true [] => simp [childTrees] at h
  | node span (some rename) hasGlob (e :: below) => rw [childTrees_some_cons] at h; simp at h

theorem importsBelow_globs (path : List String) (hasGlob : Bool) :
    (globs hasGlob).flatMap (UseTree.importsBelow path) =
      if hasGlob then [{ path, isGlob := true }] else [] := by
  cases hasGlob <;> simp [globs]

theorem flatMap_importsBelow_childTrees {path : List String} {t : Trie}
    (ih : ∀ e ∈ t.entries, (e.2.toTree e.1).importsBelow path = e.2.imports (path ++ [e.1]))
    (h : t.childTrees ≠ []) :
    t.childTrees.flatMap (UseTree.importsBelow path) = t.imports path := by
  have hbelow : ∀ below : List (String × Trie), (∀ e ∈ below,
      (e.2.toTree e.1).importsBelow path = e.2.imports (path ++ [e.1])) →
      (toTrees below).flatMap (UseTree.importsBelow path) =
        below.flatMap fun e => e.2.imports (path ++ [e.1]) := by
    intro below hb
    rw [toTrees_eq_map, List.flatMap_map]
    exact List.flatMap_congr hb
  match t with
  | node span none hasGlob below =>
    rw [childTrees, List.flatMap_append, hbelow below ih, importsBelow_globs, imports_node]
    rfl
  | node span (some rename) false [] => exact absurd (by rw [childTrees]) h
  | node span (some rename) true [] =>
    simp [childTrees, toTrees, globs, imports_node]
  | node span (some rename) hasGlob (e :: below) =>
    rw [childTrees_some_cons, List.flatMap_cons, List.flatMap_append, hbelow (e :: below) ih, importsBelow_globs, imports_node,
      ← List.append_assoc, UseTree.importsBelow_leaf]
    rfl

/-- Reading a prefix tree as a use tree keeps its imports. A path that ends in `self` would be
read as the path without it. -/
theorem importsBelow_toTree {path : List String} {name : String} {t : Trie} (hl : t.Live)
    (hself : ∀ i ∈ t.imports (path ++ [name]), i.isGlob = false →
      i.path.getLast? ≠ some UseTree.selfName) :
    (t.toTree name).importsBelow path = t.imports (path ++ [name]) := by
  induction t generalizing path name with
  | node span target hasGlob below ih =>
    rw [toTree_eq]
    by_cases h : (node span target hasGlob below).childTrees = []
    · obtain ⟨span, rename, heq⟩ := childTrees_eq_nil hl h
      rw [h, heq, imports_node]
      rw [heq, imports_node] at hself
      have hname : name ≠ UseTree.selfName := by simpa using hself
      simp [headSegment, hname]
    · obtain ⟨c, cs, hc⟩ := List.exists_cons_of_ne_nil h
      rw [hc, UseTree.importsBelow_node_cons, ← hc, headSegment_name]
      refine flatMap_importsBelow_childTrees (fun e he => ?_) h
      refine ih e he (hl.entries e he) fun i hi => hself i ?_
      rw [imports_node]
      exact List.mem_append_left _ (List.mem_append_right _ (List.mem_flatMap.2 ⟨e, he, hi⟩))

/-- The same at the root, where a `self` is a name like others. -/
theorem imports_toTree {name : String} {t : Trie} (hl : t.Live)
    (hself : ∀ i ∈ t.imports [name], ¬ i.EndsInSelf) :
    (t.toTree name).imports = t.imports [name] := by
  obtain ⟨span, target, hasGlob, below⟩ := t
  rw [toTree_eq]
  by_cases h : (node span target hasGlob below).childTrees = []
  · obtain ⟨span, rename, heq⟩ := childTrees_eq_nil hl h
    rw [h, heq, imports_node]
    simp [headSegment]
  · obtain ⟨c, cs, hc⟩ := List.exists_cons_of_ne_nil h
    rw [hc, UseTree.imports_node_cons, ← hc, headSegment_name]
    refine flatMap_importsBelow_childTrees (fun e he => ?_) h
    refine importsBelow_toTree (hl.entries e he) fun i hi hg => ?_
    have hmem : i ∈ (node span target hasGlob below).imports [name] := by
      rw [imports_node]
      exact List.mem_append_left _ (List.mem_append_right _ (List.mem_flatMap.2 ⟨e, he, hi⟩))
    refine fun hlast => hself i hmem ⟨hg, ?_, hlast⟩
    simpa using (prefix_of_mem_imports hi).length_le

/-! ## Order of insertions -/

theorem alter_alter_self (name : String) (f g : Option Trie → Trie)
    (below : List (String × Trie)) :
    alter name f (alter name g below) = alter name (fun o => f (some (g o))) below := by
  induction below with
  | nil => simp [alter]
  | cons e below ih =>
    obtain ⟨other, t⟩ := e
    by_cases heq : name = other
    · simp [alter, heq]
    · by_cases hlt : name < other
      · simp [alter, heq, hlt]
      · simp [alter, heq, hlt, ih]

theorem alter_comm {a b : String} (hne : a ≠ b) (f g : Option Trie → Trie)
    (below : List (String × Trie)) :
    alter a f (alter b g below) = alter b g (alter a f below) := by
  have hba := hne.symm
  induction below with
  | nil =>
    rcases lt_or_gt_of_ne hne with h | h
    · simp [alter, hne, hba, h, not_lt_of_gt h]
    · simp [alter, hne, hba, h, not_lt_of_gt h]
  | cons e below ih =>
    obtain ⟨other, t⟩ := e
    by_cases ha : a = other
    · subst ha
      by_cases hlt : b < a
      · simp [alter, hba, hlt, hne, not_lt_of_gt hlt]
      · simp [alter, hba, hlt]
    · by_cases hb : b = other
      · subst hb
        by_cases hlt : a < b
        · simp [alter, hne, hlt, hba, not_lt_of_gt hlt]
        · simp [alter, hne, hlt]
      · by_cases hla : a < other
        · by_cases hlb : b < other
          · rcases lt_or_gt_of_ne hne with h | h
            · simp [alter, ha, hb, hne, hba, hla, hlb, h, not_lt_of_gt h]
            · simp [alter, ha, hb, hne, hba, hla, hlb, h, not_lt_of_gt h]
          · have h : ¬ b < a := fun h => hlb (lt_trans h hla)
            simp [alter, ha, hb, hba, hla, hlb, h]
        · by_cases hlb : b < other
          · have h : ¬ a < b := fun h => hla (lt_trans h hlb)
            simp [alter, ha, hb, hne, hla, hlb, h]
          · simp [alter, ha, hb, hla, hlb, ih]

def bareSteps (path : List String) : List (String × Option Span) := path.map fun name => (name, none)

/-- Insertions at different paths, or of different kinds, commute. -/
theorem insertAt_comm {g g' : Bool} {r r' : Option String} {p p' : List String}
    (hne : (p, g) ≠ (p', g')) (t : Trie) :
    (t.insertAt g r (bareSteps p)).insertAt g' r' (bareSteps p') =
      (t.insertAt g' r' (bareSteps p')).insertAt g r (bareSteps p) := by
  induction p generalizing p' t with
  | nil =>
    obtain ⟨span, target, hasGlob, below⟩ := t
    cases p' with
    | nil =>
      have hg : g ≠ g' := fun h => hne (by rw [h])
      cases g <;> cases g' <;> simp_all [bareSteps, insertAt, mark]
    | cons name' p' => cases g <;> simp [bareSteps, insertAt, mark]
  | cons name p ih =>
    obtain ⟨span, target, hasGlob, below⟩ := t
    cases p' with
    | nil => cases g' <;> simp [bareSteps, insertAt, mark]
    | cons name' p' =>
      simp only [bareSteps, List.map_cons, insertAt, node.injEq, true_and]
      by_cases hname : name = name'
      · subst hname
        rw [alter_alter_self, alter_alter_self]
        congr 1
        funext o
        exact ih (fun h => hne (by rw [Prod.mk.injEq] at h ⊢; rw [h.1, h.2]; simp)) _
      · exact alter_comm (Ne.symm hname) ..

/-! ## Places -/

mutual

def bare : Trie → Trie
  | node _ target hasGlob below => node none target hasGlob (bareAll below)

def bareAll : List (String × Trie) → List (String × Trie)
  | [] => []
  | (name, t) :: rest => (name, bare t) :: bareAll rest

end

theorem bareAll_eq_map (below : List (String × Trie)) :
    bareAll below = below.map fun e => (e.1, e.2.bare) := by
  induction below with
  | nil => rfl
  | cons e below ih => rw [bareAll, ih, List.map_cons]

theorem bareAll_alter {name : String} {f g : Option Trie → Trie}
    (h : ∀ o, (f o).bare = g (o.map bare)) (below : List (String × Trie)) :
    bareAll (alter name f below) = alter name g (bareAll below) := by
  induction below with
  | nil => simp [alter, bareAll, h]
  | cons e below ih =>
    obtain ⟨other, t⟩ := e
    rw [alter, bareAll, alter]
    split
    · simp [bareAll, h]
    · split
      · simp [bareAll, h]
      · simp [bareAll, ih]

theorem bare_insertAt (isGlob : Bool) (rename : Option String)
    (steps : List (String × Option Span)) (t : Trie) :
    (t.insertAt isGlob rename steps).bare =
      t.bare.insertAt isGlob rename (bareSteps (names steps)) := by
  induction steps generalizing t with
  | nil =>
    obtain ⟨span, target, hasGlob, below⟩ := t
    cases isGlob <;> simp [bareSteps, insertAt, mark, bare]
  | cons step steps ih =>
    obtain ⟨name, span⟩ := step
    obtain ⟨s, target, hasGlob, below⟩ := t
    simp only [names_cons, bareSteps, List.map_cons, insertAt, bare, node.injEq, true_and]
    refine bareAll_alter (fun o => ?_) below
    rw [ih]
    cases o with
    | none => simp [empty, bare, bareAll, bareSteps]
    | some u => simp [bareSteps]

theorem bare_headSegment (name : String) (t : Trie) :
    (t.headSegment name).bare = t.bare.headSegment name := by
  match t with
  | node span none hasGlob below => rfl
  | node span (some rename) false [] => rfl
  | node span (some rename) true [] => rfl
  | node span (some rename) hasGlob (e :: below) => cases hasGlob <;> rfl

theorem map_bare_globs (hasGlob : Bool) : (globs hasGlob).map UseTree.bare = globs hasGlob := by
  cases hasGlob <;> simp [globs, Segment.bare]

theorem bare_toTree (name : String) (t : Trie) : (t.toTree name).bare = t.bare.toTree name := by
  induction t generalizing name with
  | node span target hasGlob below ih =>
    have hb : (toTrees below).map UseTree.bare = toTrees (bareAll below) := by
      rw [toTrees_eq_map, toTrees_eq_map, bareAll_eq_map, List.map_map, List.map_map]
      exact List.map_congr_left fun e he => ih e he _
    rw [toTree_eq, toTree_eq, UseTree.bare_node, bare_headSegment]
    congr 1
    match target, hasGlob, below with
    | none, hasGlob, below =>
      rw [childTrees, bare, childTrees, List.map_append, hb, map_bare_globs]
    | some rename, false, [] => rfl
    | some rename, true, [] => simp [bare, bareAll, childTrees, toTrees, globs, Segment.bare]
    | some rename, hasGlob, e :: below =>
      rw [childTrees_some_cons, bare, List.map_cons, List.map_append, hb, map_bare_globs, bareAll,
        childTrees_some_cons, UseTree.bare_node]
      rfl

end Trie

/-! ## Trees of targets -/

theorem Trie.names_steps (t : Target) : Trie.names (Trie.steps t) = t.path.tail := by
  rw [Trie.names, Trie.steps, List.map_tail, List.map_fst_zip (by simp)]

theorem Trie.steps_bare (t : Target) : Trie.steps t.bare = Trie.bareSteps t.path.tail := by
  have h : ∀ path : List String, path.zip (List.replicate path.length (none : Option Span)) =
      Trie.bareSteps path := by
    intro path
    induction path with
    | nil => rfl
    | cons name path ih => rw [List.length_cons, List.replicate_succ, List.zip_cons_cons, ih]; rfl
  rw [Trie.steps, Target.bare_spans, Target.bare_path, List.nil_append, h, Trie.bareSteps,
    Trie.bareSteps, List.map_tail]

namespace UseTree

def trieOf (first : Target) (others : List Target) : Trie :=
  (first :: others).foldl (fun trie t => trie.insert t) (Trie.empty first.spans.head?.join)

theorem ofTargets_eq (first : Target) (others : List Target) :
    ofTargets first others = (trieOf first others).toTree (first.path.headD "") := rfl

theorem bare_foldl_insert (ts : List Target) (t : Trie) :
    (ts.foldl (fun trie t => trie.insert t) t).bare =
      (ts.map Target.bare).foldl (fun trie t => trie.insert t) t.bare := by
  induction ts generalizing t with
  | nil => rfl
  | cons u ts ih =>
    rw [List.foldl_cons, ih, List.map_cons, List.foldl_cons, Trie.insert, Trie.insert,
      Trie.bare_insertAt, Trie.names_steps, Trie.steps_bare]
    rfl

/-- Places have no influence on the tree of some targets. -/
theorem bare_ofTargets (first : Target) (others : List Target) :
    (ofTargets first others).bare = ofTargets first.bare (others.map Target.bare) := by
  rw [ofTargets_eq, ofTargets_eq, Trie.bare_toTree, trieOf, trieOf, bare_foldl_insert]
  rfl

/-- Imports of one root, no two of one path and kind. A glob has no rename. -/
structure Separate (root : String) (ts : List Target) : Prop where
  rooted : ∀ t ∈ ts, ∃ path, t.path = root :: path
  globs : ∀ t ∈ ts, t.isGlob = true → t.rename = none
  distinct : ts.Pairwise fun t u => (t.path, t.isGlob) ≠ (u.path, u.isGlob)

theorem Separate.perm {root : String} {ts us : List Target} (h : Separate root ts)
    (hp : ts.Perm us) : Separate root us where
  rooted t ht := h.rooted t (hp.mem_iff.2 ht)
  globs t ht := h.globs t (hp.mem_iff.2 ht)
  distinct := (hp.pairwise_iff (fun h => Ne.symm h)).1 h.distinct

theorem foldl_insert_perm {ts us : List Target} {root : String} (h : Separate root ts)
    (hp : ts.Perm us) (t : Trie) :
    (ts.map Target.bare).foldl (fun trie t => trie.insert t) t =
      (us.map Target.bare).foldl (fun trie t => trie.insert t) t := by
  refine (hp.map Target.bare).foldl_eq' ?_ t
  rintro x hx y hy z
  replace ⟨x, hx, hx'⟩ := List.mem_map.1 hx
  replace ⟨y, hy, hy'⟩ := List.mem_map.1 hy
  subst hx' hy'
  rcases eq_or_ne x y with rfl | hne
  · rfl
  have : Std.Symm fun t u : Target => (t.path, t.isGlob) ≠ (u.path, u.isGlob) :=
    ⟨fun _ _ h => h.symm⟩
  have hdiff := h.distinct.forall hx hy hne
  obtain ⟨p, hp⟩ := h.rooted x hx
  obtain ⟨q, hq⟩ := h.rooted y hy
  rw [Trie.insert, Trie.insert, Trie.insert, Trie.insert, Trie.steps_bare, Trie.steps_bare]
  refine Trie.insertAt_comm (fun heq => hdiff ?_) z
  rw [hp, hq] at heq ⊢
  simp only [Target.bare_isGlob, List.tail_cons, Prod.mk.injEq] at heq
  rw [heq.1, heq.2]

/-- The tree of some targets does not depend on their order. -/
theorem bare_ofTargets_perm {root : String} {t u : Target} {ts us : List Target}
    (h : Separate root (t :: ts)) (hp : (t :: ts).Perm (u :: us)) :
    (ofTargets t ts).bare = (ofTargets u us).bare := by
  have hfold := foldl_insert_perm h hp (Trie.empty none)
  obtain ⟨p, ht⟩ := h.rooted t List.mem_cons_self
  obtain ⟨q, hu⟩ := (h.perm hp).rooted u List.mem_cons_self
  rw [bare_ofTargets, bare_ofTargets, ofTargets_eq, ofTargets_eq, Target.bare_path,
    Target.bare_path, ht, hu]
  exact congrArg (Trie.toTree root) hfold

theorem live_foldl_insert {ts : List Target} (hne : ts ≠ []) {t : Trie}
    (h : ∀ e ∈ t.entries, e.2.Live) : (ts.foldl (fun trie t => trie.insert t) t).Live := by
  induction ts generalizing t with
  | nil => exact absurd rfl hne
  | cons u ts ih =>
    have hu := Trie.live_insertAt u.isGlob u.rename (Trie.steps u) t h
    rw [List.foldl_cons]
    rcases eq_or_ne ts [] with rfl | hts
    · exact hu
    · exact ih hts hu.entries

theorem imports_foldl_insert_perm {root : String} {ts : List Target} (h : Separate root ts)
    {t : Trie} (hnew : ∀ i ∈ t.imports [root], ∀ u ∈ ts, (i.path, i.isGlob) ≠ (u.path, u.isGlob)) :
    ((ts.foldl (fun trie t => trie.insert t) t).imports [root]).Perm
      (ts.map Target.bare ++ t.imports [root]) := by
  induction ts generalizing t with
  | nil => exact List.Perm.refl _
  | cons u ts ih =>
    obtain ⟨p, hu⟩ := h.rooted u List.mem_cons_self
    have hpath : [root] ++ Trie.names (Trie.steps u) = u.path := by
      rw [Trie.names_steps, hu]
      rfl
    have hadd : ((t.insert u).imports [root]).Perm (u.bare :: t.imports [root]) := by
      have hperm := Trie.imports_insertAt_perm u.isGlob u.rename (h.globs u List.mem_cons_self)
        (Trie.steps u) [root] t
      rw [hpath] at hperm
      exact hperm fun i hi hiu => hnew i hi u List.mem_cons_self (by rw [hiu.1, hiu.2])
    obtain ⟨hfirst, hrest⟩ := List.pairwise_cons.1 h.distinct
    have hs : Separate root ts := ⟨fun v hv => h.rooted v (List.mem_cons_of_mem _ hv),
      fun v hv => h.globs v (List.mem_cons_of_mem _ hv), hrest⟩
    rw [List.foldl_cons]
    refine (ih hs fun i hi v hv => ?_).trans ?_
    · rcases List.mem_cons.1 (hadd.mem_iff.1 hi) with rfl | hi
      · exact hfirst v hv
      · exact hnew i hi v (List.mem_cons_of_mem _ hv)
    · exact (hadd.append_left _).trans List.perm_middle

/-- The prefix tree of some targets holds these targets. -/
theorem imports_trieOf_perm {root : String} {t : Target} {ts : List Target}
    (h : Separate root (t :: ts)) :
    ((trieOf t ts).imports [root]).Perm ((t :: ts).map Target.bare) := by
  have hp := imports_foldl_insert_perm h (t := Trie.empty t.spans.head?.join) (by simp)
  rwa [Trie.imports_empty, List.append_nil] at hp

theorem live_trieOf (t : Target) (ts : List Target) : (trieOf t ts).Live :=
  live_foldl_insert (List.cons_ne_nil _ _) (by simp [Trie.empty, Trie.entries])

/-- The tree of some targets imports these targets. -/
theorem imports_ofTargets_perm {root : String} {t : Target} {ts : List Target}
    (h : Separate root (t :: ts)) (hself : ∀ u ∈ t :: ts, ¬ u.EndsInSelf) :
    ((ofTargets t ts).imports).Perm ((t :: ts).map Target.bare) := by
  obtain ⟨p, ht⟩ := h.rooted t List.mem_cons_self
  have hroot : t.path.headD "" = root := by rw [ht]; rfl
  have hperm := imports_trieOf_perm h
  rw [ofTargets_eq, hroot, Trie.imports_toTree (live_trieOf t ts)]
  · exact hperm
  · intro i hi
    obtain ⟨u, hu, rfl⟩ := List.mem_map.1 (hperm.mem_iff.1 hi)
    exact hself u hu

end UseTree

end TidyUse
