import TidyUse.Proofs.Canonical

/-!
# Trees rebuilt from their targets

A tree can be taken apart into its targets and built again.

* `Trie.mem_imports_insertAt_of_mem` : an insertion replaces an import of its own path and kind, and
  no other;
* `Trie.mem_imports_toTree` : reading a prefix tree as a use tree loses at most paths that end in
  `self`;
* `UseTree.Rooted.exists_mem_ofTargets` : of several targets of one path and kind the last one stays;
* `UseTree.build_canonical` : without such repetitions, building and taking apart undo each other.
-/

namespace TidyUse

namespace Trie

/-! ## What an insertion keeps -/

/-- A name that is changed has an entry. -/
theorem exists_mem_alter (name : String) (f : Option Trie → Trie) (below : List (String × Trie)) :
    ∃ o, (name, f o) ∈ alter name f below := by
  induction below with
  | nil => exact ⟨none, List.mem_singleton_self _⟩
  | cons e below ih =>
    obtain ⟨other, t⟩ := e
    rw [alter]
    split
    · rename_i heq
      exact ⟨some t, heq ▸ List.mem_cons_self⟩
    · split
      · exact ⟨none, List.mem_cons_self⟩
      · obtain ⟨o, ho⟩ := ih
        exact ⟨o, List.mem_cons_of_mem _ ho⟩

/-- An entry stays, or is the one that is changed. -/
theorem mem_alter_of_mem (name : String) (f : Option Trie → Trie) {below : List (String × Trie)}
    {e : String × Trie} (he : e ∈ below) :
    e ∈ alter name f below ∨ e.1 = name ∧ (e.1, f (some e.2)) ∈ alter name f below := by
  induction below with
  | nil => cases he
  | cons d below ih =>
    obtain ⟨other, t⟩ := d
    rw [alter]
    split
    · rename_i heq
      rcases List.mem_cons.1 he with rfl | he
      · exact Or.inr ⟨heq.symm, List.mem_cons_self⟩
      · exact Or.inl (List.mem_cons_of_mem _ he)
    · split
      · exact Or.inl (List.mem_cons_of_mem _ he)
      · rcases List.mem_cons.1 he with rfl | he
        · exact Or.inl List.mem_cons_self
        · rcases ih he with hmem | ⟨hname, hmem⟩
          · exact Or.inl (List.mem_cons_of_mem _ hmem)
          · exact Or.inr ⟨hname, List.mem_cons_of_mem _ hmem⟩

/-- The imports of a prefix tree are those of its name, those below and a glob. -/
theorem mem_imports_node {path : List String} {span : Option Span}
    {target : Option (Option String)} {hasGlob : Bool} {below : List (String × Trie)} {i : Target} :
    i ∈ (node span target hasGlob below).imports path ↔
      (∃ rename, target = some rename ∧ i = { path, rename }) ∨
        (∃ e ∈ below, i ∈ e.2.imports (path ++ [e.1])) ∨
        hasGlob = true ∧ i = { path, isGlob := true } := by
  rw [imports_node, List.mem_append, List.mem_append, List.mem_flatMap, or_assoc]
  cases target <;> cases hasGlob <;> simp

/-- What is inserted is there. -/
theorem mem_imports_insertAt {isGlob : Bool} {rename : Option String} (hr : isGlob → rename = none)
    (steps : List (String × Option Span)) (path : List String) (t : Trie) :
    { path := path ++ names steps, rename, isGlob } ∈
      (t.insertAt isGlob rename steps).imports path := by
  induction steps generalizing path t with
  | nil =>
    obtain ⟨span, target, hasGlob, below⟩ := t
    rw [insertAt, mark, names_nil, List.append_nil]
    cases isGlob with
    | true => exact mem_imports_node.2 (Or.inr (Or.inr ⟨rfl, by rw [hr rfl]⟩))
    | false => exact mem_imports_node.2 (Or.inl ⟨rename, rfl, rfl⟩)
  | cons step steps ih =>
    obtain ⟨name, span⟩ := step
    obtain ⟨s, target, hasGlob, below⟩ := t
    obtain ⟨o, ho⟩ := exists_mem_alter name
      (fun u => insertAt isGlob rename steps (u.getD (empty span))) below
    have hmem := ih (path ++ [name]) (o.getD (empty span))
    rw [List.append_assoc, List.singleton_append] at hmem
    exact mem_imports_node.2 (Or.inr (Or.inl ⟨_, ho, hmem⟩))

/-- What was there stays, unless it is of the path and kind of what is inserted. -/
theorem mem_imports_insertAt_of_mem {isGlob : Bool} {rename : Option String}
    {steps : List (String × Option Span)} {path : List String} {t : Trie} {i : Target}
    (hi : i ∈ t.imports path) (hne : ¬ (i.path = path ++ names steps ∧ i.isGlob = isGlob)) :
    i ∈ (t.insertAt isGlob rename steps).imports path := by
  induction steps generalizing path t with
  | nil =>
    obtain ⟨span, target, hasGlob, below⟩ := t
    rw [names_nil, List.append_nil] at hne
    rw [insertAt, mark]
    rcases mem_imports_node.1 hi with ⟨r, rfl, rfl⟩ | hbelow | ⟨rfl, rfl⟩
    · cases isGlob with
      | true => exact mem_imports_node.2 (Or.inl ⟨r, rfl, rfl⟩)
      | false => exact absurd ⟨rfl, rfl⟩ hne
    · cases isGlob with
      | true => exact mem_imports_node.2 (Or.inr (Or.inl hbelow))
      | false => exact mem_imports_node.2 (Or.inr (Or.inl hbelow))
    · cases isGlob with
      | true => exact absurd ⟨rfl, rfl⟩ hne
      | false => exact mem_imports_node.2 (Or.inr (Or.inr ⟨rfl, rfl⟩))
  | cons step steps ih =>
    obtain ⟨name, span⟩ := step
    obtain ⟨s, target, hasGlob, below⟩ := t
    rw [insertAt]
    rcases mem_imports_node.1 hi with htarget | ⟨e, he, hie⟩ | hglob
    · exact mem_imports_node.2 (Or.inl htarget)
    · refine mem_imports_node.2 (Or.inr (Or.inl ?_))
      rcases mem_alter_of_mem name
        (fun u => insertAt isGlob rename steps (u.getD (empty span))) he with hmem | ⟨rfl, hmem⟩
      · exact ⟨e, hmem, hie⟩
      · refine ⟨_, hmem, ih hie fun hsame => hne ⟨?_, hsame.2⟩⟩
        rw [hsame.1, names_cons, List.append_assoc, List.singleton_append]
    · exact mem_imports_node.2 (Or.inr (Or.inr hglob))

/-! ## What reading a prefix tree keeps -/

theorem mem_importsBelow_childTrees {path : List String} {t : Trie} {i : Target}
    (ih : ∀ e ∈ t.entries, i ∈ e.2.imports (path ++ [e.1]) → i ∈ (e.2.toTree e.1).importsBelow path)
    (h : t.childTrees ≠ []) (hi : i ∈ t.imports path) :
    i ∈ t.childTrees.flatMap (UseTree.importsBelow path) := by
  obtain ⟨span, target, hasGlob, below⟩ := t
  have hbelow : ∀ cs, (∃ e ∈ below, i ∈ e.2.imports (path ++ [e.1])) ∨
      hasGlob = true ∧ i = { path, isGlob := true } →
      i ∈ (cs ++ (toTrees below ++ globs hasGlob)).flatMap (UseTree.importsBelow path) := by
    intro cs hor
    rw [List.flatMap_append, List.flatMap_append]
    refine List.mem_append_right _ ?_
    rcases hor with ⟨e, he, hie⟩ | ⟨rfl, rfl⟩
    · refine List.mem_append_left _ (List.mem_flatMap.2 ⟨e.2.toTree e.1, ?_, ih e he hie⟩)
      rw [toTrees_eq_map]
      exact List.mem_map_of_mem he
    · refine List.mem_append_right _ ?_
      rw [importsBelow_globs, if_pos rfl]
      exact List.mem_singleton_self _
  match target, hasGlob, below with
  | none, hasGlob, below =>
    rcases mem_imports_node.1 hi with ⟨r, hr, -⟩ | hor
    · cases hr
    · exact hbelow [] hor
  | some r, false, [] => exact absurd (by rw [childTrees]) h
  | some r, true, [] =>
    rcases mem_imports_node.1 hi with ⟨r', hr, rfl⟩ | hor
    · cases hr
      simp [childTrees]
    · exact hbelow [.node ⟨UseTree.selfName, r, none⟩ []] hor
  | some r, hasGlob, e :: below =>
    rw [childTrees_some_cons]
    rcases mem_imports_node.1 hi with ⟨r', hr, rfl⟩ | hor
    · cases hr
      simp
    · exact hbelow [.node ⟨UseTree.selfName, r, none⟩ []] hor

/-- Reading a prefix tree as a use tree keeps an import that does not end in `self`. -/
theorem mem_importsBelow_toTree {path : List String} (hpath : path ≠ []) {name : String} {t : Trie}
    (hl : t.Live) {i : Target} (hi : i ∈ t.imports (path ++ [name])) (hself : ¬ i.EndsInSelf) :
    i ∈ (t.toTree name).importsBelow path := by
  induction t generalizing path name with
  | node span target hasGlob below ih =>
    rw [toTree_eq]
    by_cases h : (node span target hasGlob below).childTrees = []
    · obtain ⟨span, rename, heq⟩ := childTrees_eq_nil hl h
      rw [heq] at hi
      rw [h, heq]
      rcases mem_imports_node.1 hi with ⟨r, hr, rfl⟩ | ⟨e, he, -⟩ | ⟨hglob, -⟩
      · cases hr
        have hname : name ≠ UseTree.selfName := by
          rintro rfl
          refine hself ⟨rfl, ?_, by simp⟩
          have := List.length_pos_iff.2 hpath
          simp only [List.length_append, List.length_singleton]
          omega
        simp [headSegment, hname]
      · cases he
      · cases hglob
    · obtain ⟨c, cs, hc⟩ := List.exists_cons_of_ne_nil h
      rw [hc, UseTree.importsBelow_node_cons, ← hc, headSegment_name]
      exact mem_importsBelow_childTrees
        (fun e he hie => ih e he (by simp) (hl.entries e he) hie) h hi

/-- The same at the root, where a `self` is a name like others. -/
theorem mem_imports_toTree {name : String} {t : Trie} (hl : t.Live) {i : Target}
    (hi : i ∈ t.imports [name]) (hself : ¬ i.EndsInSelf) : i ∈ (t.toTree name).imports := by
  rw [toTree_eq]
  by_cases h : t.childTrees = []
  · obtain ⟨span, rename, heq⟩ := childTrees_eq_nil hl h
    subst heq
    simpa [headSegment, childTrees, imports_node] using hi
  · obtain ⟨c, cs, hc⟩ := List.exists_cons_of_ne_nil h
    rw [hc, UseTree.imports_node_cons, ← hc, headSegment_name]
    exact mem_importsBelow_childTrees
      (fun e he hie => mem_importsBelow_toTree (by simp) (hl.entries e he) hie hself) h hi

end Trie

/-! ## Trees of targets -/

instance (t : Target) : Decidable t.EndsInSelf := inferInstanceAs (Decidable (_ ∧ _ ∧ _))

theorem Target.SamePlace.bare_eq {t u : Target} (h : t.SamePlace u)
    (hname : t.rename = u.rename) : t.bare = u.bare := by
  rw [bare, bare, h.1, h.2, hname]

theorem Target.SamePlace.endsInSelf {t u : Target} (h : t.SamePlace u) :
    t.EndsInSelf ↔ u.EndsInSelf := by
  rw [Target.EndsInSelf, Target.EndsInSelf, h.1, h.2]

namespace UseTree

/-- Imports of one root. A glob has no rename. -/
structure Rooted (root : String) (ts : List Target) : Prop where
  path : ∀ t ∈ ts, ∃ path, t.path = root :: path
  globs : ∀ t ∈ ts, t.isGlob = true → t.rename = none

theorem Rooted.sublist {root : String} {ts us : List Target} (h : Rooted root us)
    (hs : ts.Sublist us) : Rooted root ts :=
  ⟨fun t ht => h.path t (hs.subset ht), fun t ht => h.globs t (hs.subset ht)⟩

theorem names_steps_eq {root : String} {u : Target} (h : ∃ path, u.path = root :: path) :
    [root] ++ Trie.names (Trie.steps u) = u.path := by
  obtain ⟨path, hpath⟩ := h
  rw [Trie.names_steps, hpath]
  rfl

theorem Rooted.mem_insert {root : String} {u : Target} {us : List Target} (h : Rooted root (u :: us))
    (t : Trie) : u.bare ∈ (t.insert u).imports [root] := by
  have hmem := Trie.mem_imports_insertAt (h.globs u List.mem_cons_self) (Trie.steps u) [root] t
  rw [names_steps_eq (h.path u List.mem_cons_self)] at hmem
  exact hmem

/-- An import that is there stays, or another one of its path and kind takes its place. -/
theorem Rooted.exists_mem_foldl {root : String} {ts : List Target} (h : Rooted root ts) {t : Trie}
    {i : Target} (hi : i ∈ t.imports [root]) :
    ∃ j ∈ (ts.foldl (fun trie t => trie.insert t) t).imports [root],
      j = i ∨ ∃ g ∈ ts, g.SamePlace i ∧ g.bare = j := by
  induction ts generalizing t i with
  | nil => exact ⟨i, hi, Or.inl rfl⟩
  | cons u ts ih =>
    rw [List.foldl_cons]
    have hts := h.sublist (List.sublist_cons_self u ts)
    by_cases hsame : u.SamePlace i
    · obtain ⟨j, hj, hor⟩ := ih hts (h.mem_insert t)
      refine ⟨j, hj, Or.inr ?_⟩
      rcases hor with rfl | ⟨g, hg, hgu, hgj⟩
      · exact ⟨u, List.mem_cons_self, hsame, rfl⟩
      · exact ⟨g, List.mem_cons_of_mem _ hg, ⟨hgu.1.trans hsame.1, hgu.2.trans hsame.2⟩, hgj⟩
    · have hkept : i ∈ (t.insert u).imports [root] := by
        refine Trie.mem_imports_insertAt_of_mem hi fun hsteps => hsame ?_
        rw [names_steps_eq (h.path u List.mem_cons_self)] at hsteps
        exact ⟨hsteps.1.symm, hsteps.2.symm⟩
      obtain ⟨j, hj, hor⟩ := ih hts hkept
      refine ⟨j, hj, hor.imp_right ?_⟩
      rintro ⟨g, hg, hgi, hgj⟩
      exact ⟨g, List.mem_cons_of_mem _ hg, hgi, hgj⟩

/-- The tree of some targets imports each of them, or else a later one of its path and kind. -/
theorem Rooted.exists_mem_ofTargets {root : String} {t f : Target} {ts before after : List Target}
    (h : Rooted root (t :: ts)) (hsplit : t :: ts = before ++ f :: after)
    (hself : ¬ f.EndsInSelf) :
    ∃ g ∈ f :: after, g.SamePlace f ∧ g.bare ∈ (ofTargets t ts).imports := by
  obtain ⟨p, hp⟩ := h.path t List.mem_cons_self
  have hroot : t.path.headD "" = root := by rw [hp]; rfl
  have hlast : Rooted root (f :: after) := h.sublist (hsplit ▸ List.sublist_append_right _ _)
  have hafter : Rooted root after := hlast.sublist (List.sublist_cons_self _ _)
  -- the import is there when it is inserted, and then the later ones are
  obtain ⟨j, hj, hor⟩ := hafter.exists_mem_foldl (hlast.mem_insert
    (before.foldl (fun trie t => trie.insert t) (Trie.empty t.spans.head?.join)))
  rw [← List.foldl_cons (f := fun (trie : Trie) t => trie.insert t), ← List.foldl_append, ← hsplit]
    at hj
  obtain ⟨g, hg, hgf, rfl⟩ : ∃ g ∈ f :: after, g.SamePlace f ∧ g.bare = j := by
    rcases hor with rfl | ⟨g, hg, hgf, hgj⟩
    · exact ⟨f, List.mem_cons_self, ⟨rfl, rfl⟩, rfl⟩
    · exact ⟨g, List.mem_cons_of_mem _ hg, hgf, hgj⟩
  refine ⟨g, hg, hgf, ?_⟩
  rw [ofTargets_eq, hroot]
  exact Trie.mem_imports_toTree (live_trieOf t ts) hj fun hend => hself (hgf.endsInSelf.1 hend)

/-- The tree of some targets imports these targets, and it is told by them: two lists of targets
make the same tree if and only if they hold the same targets. -/
theorem build_canonical {root root' : String} {ts us : List Target} (hts : ts ≠ []) (hus : us ≠ [])
    (h : Separate root ts) (h' : Separate root' us) (hself : ∀ t ∈ ts, ¬ t.EndsInSelf)
    (hself' : ∀ u ∈ us, ¬ u.EndsInSelf) :
    ∃ t u, build ts = .ok (some t) ∧ build us = .ok (some u) ∧
      (t.targets.map Target.bare).Perm (ts.map Target.bare) ∧
      (t.bare = u.bare ↔ (us.map Target.bare).Perm (ts.map Target.bare)) := by
  obtain ⟨t, ts, rfl⟩ := List.exists_cons_of_ne_nil hts
  obtain ⟨u, us, rfl⟩ := List.exists_cons_of_ne_nil hus
  have ht : (ofTargets t ts).imports.Perm ((t :: ts).map Target.bare) :=
    imports_ofTargets_perm h hself
  have hu : (ofTargets u us).imports.Perm ((u :: us).map Target.bare) :=
    imports_ofTargets_perm h' hself'
  refine ⟨ofTargets t ts, ofTargets u us, h.build, h'.build, ht, fun heq => ?_, fun hp => ?_⟩
  · have himports : (ofTargets u us).imports = (ofTargets t ts).imports := by
      rw [← imports_bare, ← heq, imports_bare]
    exact hu.symm.trans (himports ▸ ht)
  · exact bare_ofTargets_of_perm h hp.symm

/-- A name that is imported itself, under another name, and that holds a name and a glob. -/
def sampleTargets : List Target :=
  [{ path := ["a", "b"] }, { path := ["a"], isGlob := true }, { path := ["a"], rename := some "c" },
   { path := ["a", "self", "d"], rename := some "_" }]

theorem build_canonical_sampleTargets :
    Separate "a" sampleTargets ∧ (∀ t ∈ sampleTargets, ¬ t.EndsInSelf) ∧
      ∃ t u, build sampleTargets = .ok (some t) ∧ build sampleTargets.reverse = .ok (some u) ∧
        (t.targets.map Target.bare).Perm (sampleTargets.map Target.bare) ∧ t.bare = u.bare := by
  have hsep : Separate "a" sampleTargets :=
    ⟨by simp [sampleTargets], by simp [sampleTargets], by decide⟩
  have hself : ∀ t ∈ sampleTargets, ¬ t.EndsInSelf := by decide
  have hp := List.reverse_perm sampleTargets
  obtain ⟨t, u, ht, hu, hperm, hiff⟩ := build_canonical (by decide) (by decide) hsep
    (hsep.perm hp.symm) hself fun v hv => hself v (hp.mem_iff.1 hv)
  exact ⟨hsep, hself, t, u, ht, hu, hperm, hiff.2 (hp.map _)⟩

end UseTree

end TidyUse
