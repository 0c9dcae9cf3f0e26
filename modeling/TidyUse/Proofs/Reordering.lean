import TidyUse.Proofs.Twins

/-!
# Declarations in another order

What remains of some declarations consists of three parts, of which only the first depends on their
order: the contested imports that stay, the other imports next to contested ones, and what remains
of the declarations without contested imports.

* `Unused.contents` : all imports, with what is seen of their declarations;
* `Unused.Movable`, `Unused.Movable.contents_filter_perm` : when the parts make up the whole;
* `Unused.Apart.count_rivals` : how many contested imports of a kind stay;
* `Unused.filter_perm` : the imports that stay do not depend on the order.
-/

namespace TidyUse.Unused

open UseTree

section Order

variable {spans : List Span} {ss ts : List Statement}

/-! ## The numbers do not depend on the order -/

theorem allTargets_perm (hp : ss.Perm ts) :
    (Statement.allTargets ss).Perm (Statement.allTargets ts) :=
  hp.flatMap_right _

theorem plainCount_perm (hp : ss.Perm ts) : plainCount spans ss = plainCount spans ts :=
  funext fun _ => (allTargets_perm hp).countP_eq _

theorem discardCount_perm (hp : ss.Perm ts) : discardCount ss = discardCount ts :=
  funext fun _ => (allTargets_perm hp).countP_eq _

theorem isContested_perm (hp : ss.Perm ts) : isContested spans ss = isContested spans ts := by
  funext t
  rw [isContested, isContested, plainCount_perm hp, discardCount_perm hp]

theorem stays_perm (hp : ss.Perm ts) : stays spans ss = stays spans ts := by
  funext t
  rw [stays, stays, plainCount_perm hp, discardCount_perm hp]

theorem contestedLeft_perm (hp : ss.Perm ts) : contestedLeft spans ss = contestedLeft spans ts := by
  funext key
  rw [contestedLeft, contestedLeft, plainCount_perm hp, discardCount_perm hp]

theorem Apart.perm (h : Apart spans ss) (hp : ss.Perm ts) : Apart spans ts := fun t ht u hu =>
  h t ((allTargets_perm hp).mem_iff.2 ht) u ((allTargets_perm hp).mem_iff.2 hu)

/-! ## Imports with their declarations -/

def owned (ss : List Statement) : List (Statement × Target) :=
  ss.flatMap fun s => s.tree.targets.map fun t => (s, t)

def sited (ss : List Statement) : List (Statement × Place × Target) :=
  ss.zipIdx.flatMap fun p => (placedIn p.1 p.2).map fun q => (p.1, q)

theorem map_snd_sited (ss : List Statement) : (sited ss).map Prod.snd = placed ss := by
  rw [sited, placed, List.map_flatMap]
  refine List.flatMap_congr fun p _ => ?_
  rw [List.map_map]
  exact List.map_id _

theorem map_sited (ss : List Statement) :
    (sited ss).map (fun x => (x.1, x.2.2)) = owned ss := by
  rw [sited, owned, List.map_flatMap]
  conv_rhs => rw [← List.zipIdx_map_fst 0 ss, List.flatMap_map]
  refine List.flatMap_congr fun p _ => ?_
  rw [← map_snd_placedIn p.1 p.2, List.map_map, List.map_map]
  rfl

theorem owned_perm (hp : ss.Perm ts) : (owned ss).Perm (owned ts) := hp.flatMap_right _

theorem mem_owned {s : Statement} {t : Target} :
    (s, t) ∈ owned ss ↔ s ∈ ss ∧ t ∈ s.tree.targets := by
  simp [owned]

/-- Some import of the declaration is contested. -/
def isInvolved (spans : List Span) (ss : List Statement) (s : Statement) : Bool :=
  s.tree.targets.any (isContested spans ss)

theorem isInvolved_perm (hp : ss.Perm ts) : isInvolved spans ss = isInvolved spans ts := by
  funext s
  rw [isInvolved, isInvolved, isContested_perm hp]

variable {β : Type} (view : Option String → List String → β)

/-- The import with what is seen of its declaration. -/
def seen (s : Statement) (t : Target) : β × Target := (view s.visibility s.attributes, t.bare)

def contents (ss : List Statement) : List (β × Target) :=
  ss.flatMap fun s => s.tree.targets.map (seen view s)

theorem map_snd_contents (ss : List Statement) :
    (contents view ss).map Prod.snd = Statement.allImports ss := by
  rw [contents, Statement.allImports, List.map_flatMap]
  refine List.flatMap_congr fun s _ => ?_
  rw [List.map_map]
  rfl

/-! ## A declaration -/

/-- What remains of a declaration has the imports that are kept. -/
theorem contents_remains_perm {s : Statement} (hs : s.tree.Grammatical)
    (hdistinct : s.tree.targets.Pairwise fun t u => (t.path, t.isGlob) ≠ (u.path, u.isGlob))
    (hself : ∀ t ∈ s.tree.targets, ¬ t.EndsInSelf) {ks : List Target}
    (hsub : ks.Sublist s.tree.targets) :
    (contents view (remains s ks)).Perm (ks.map (seen view s)) := by
  cases ks with
  | nil => exact List.Perm.refl _
  | cons t ts =>
    rw [remains]
    split
    · rename_i hlength
      rw [contents, List.flatMap_singleton, hsub.eq_of_length hlength]
    · have hroot := (rooted_targets hs).sublist hsub
      have hseparate : Separate s.tree.name (t :: ts) :=
        ⟨hroot.path, hroot.globs, hdistinct.sublist hsub⟩
      have himports : ((ofTargets t ts).sort.imports).Perm ((t :: ts).map Target.bare) :=
        (imports_sort_perm _).trans
          (imports_ofTargets_perm hseparate fun u hu => hself u (hsub.subset hu))
      have hseen := himports.map fun i => (view s.visibility s.attributes, i)
      rw [imports, List.map_map, List.map_map] at hseen
      rw [contents, List.flatMap_singleton]
      exact hseen

theorem Apart.not_contains_dropped (h : Apart spans ss) {p : Place × Target} (hp : p ∈ placed ss)
    (hfree : isContested spans ss p.2 = false) :
    (!(dropped spans (placed ss)).value.contains p.1) = stays spans ss p.2 := by
  rw [Bool.eq_iff_iff, Bool.not_eq_true', ← Bool.not_eq_true, List.contains_iff_mem,
    h.mem_dropped_iff hp hfree, Bool.not_eq_false]

/-- Of a declaration without contested imports the same is kept in every order. -/
theorem Apart.kept_eq (h : Apart spans ss) {s : Statement} {i : Nat} (hs : (s, i) ∈ ss.zipIdx)
    (hfree : isInvolved spans ss s = false) :
    kept (dropped spans (placed ss)).value s i = s.tree.targets.filter (stays spans ss) := by
  rw [kept, ← map_snd_placedIn s i, List.filter_map]
  congr 1
  refine List.filter_congr fun p hp => ?_
  have hplaced : p ∈ placed ss := List.mem_flatMap.2 ⟨(s, i), hs, hp⟩
  have hmem : p.2 ∈ s.tree.targets := map_snd_placedIn s i ▸ List.mem_map_of_mem hp
  have hcontested := List.any_eq_false.1 hfree p.2 hmem
  exact h.not_contains_dropped hplaced (Bool.eq_false_iff.2 hcontested)

/-! ## All declarations -/

/-- The imports that stay of the declarations with contested ones. -/
def contestants (spans : List Span) (ss : List Statement) : List (Statement × Place × Target) :=
  (sited ss).filter fun x =>
    isInvolved spans ss x.1 && !(dropped spans (placed ss)).value.contains x.2.1

/-- What the other declarations become. -/
def bystanders (spans : List Span) (ss : List Statement) : List Statement :=
  (ss.filter fun s => !isInvolved spans ss s).flatMap fun s =>
    remains s (s.tree.targets.filter (stays spans ss))

theorem bystanders_perm (hp : ss.Perm ts) :
    (bystanders spans ss).Perm (bystanders spans ts) := by
  rw [bystanders, bystanders, isInvolved_perm hp, stays_perm hp]
  exact (hp.filter _).flatMap_right _

theorem contestants_eq (spans : List Span) (ss : List Statement) :
    (contestants spans ss).map (fun x => seen view x.1 x.2.2) =
      (ss.zipIdx.filter fun p => isInvolved spans ss p.1).flatMap fun p =>
        (kept (dropped spans (placed ss)).value p.1 p.2).map (seen view p.1) := by
  rw [contestants, sited, List.filter_flatMap, List.map_flatMap]
  induction ss.zipIdx with
  | nil => rfl
  | cons p ps ih =>
    rw [List.flatMap_cons, ih, List.filter_cons, List.filter_map]
    cases hinvolved : isInvolved spans ss p.1 with
    | true =>
      simp [hinvolved, kept, Function.comp_def]
    | false =>
      simp [hinvolved, Function.comp_def]

theorem contents_flatMap {α : Type} (l : List α) (f : α → List Statement) :
    contents view (l.flatMap f) = l.flatMap fun a => contents view (f a) :=
  List.flatMap_assoc

/-- Declarations whose order may change: they can be written, none has two imports of one path and
kind, no path is reported both without a name and as `_`, and no import next to a contested one
ends in `self`. -/
structure Movable (spans : List Span) (ss : List Statement) : Prop where
  read : ∀ s ∈ ss, s.tree.Readable
  distinct : ∀ s ∈ ss, s.tree.targets.Pairwise fun t u => (t.path, t.isGlob) ≠ (u.path, u.isGlob)
  apart : Apart spans ss
  ends : ∀ s ∈ ss, isInvolved spans ss s = true → ∀ t ∈ s.tree.targets, ¬ t.EndsInSelf

theorem Movable.perm (h : Movable spans ss) (hp : ss.Perm ts) : Movable spans ts where
  read s hs := h.read s (hp.mem_iff.2 hs)
  distinct s hs := h.distinct s (hp.mem_iff.2 hs)
  apart := h.apart.perm hp
  ends s hs := isInvolved_perm hp ▸ h.ends s (hp.mem_iff.2 hs)

/-- What remains of the declarations with contested imports. -/
theorem Movable.contents_involved_perm (h : Movable spans ss) :
    ((ss.zipIdx.filter fun p => isInvolved spans ss p.1).flatMap fun p =>
        contents view (remains p.1 (kept (dropped spans (placed ss)).value p.1 p.2))).Perm
      ((contestants spans ss).map fun x => seen view x.1 x.2.2) := by
  rw [contestants_eq]
  refine List.Perm.flatMap_left _ fun p hp => ?_
  obtain ⟨hp, hinvolved⟩ := List.mem_filter.1 hp
  have hmem : p.1 ∈ ss := List.mem_of_getElem? (List.mem_zipIdx_iff_getElem?.1 hp)
  exact contents_remains_perm view (h.read _ hmem).grammatical (h.distinct _ hmem)
    (h.ends _ hmem hinvolved) (kept_sublist ..)

/-- What remains of the others. -/
theorem Apart.contents_bystanders (h : Apart spans ss) :
    contents view (bystanders spans ss) =
      (ss.zipIdx.filter fun p => !isInvolved spans ss p.1).flatMap fun p =>
        contents view (remains p.1 (kept (dropped spans (placed ss)).value p.1 p.2)) := by
  have hfst : ∀ q : Statement → Bool,
      ss.filter q = (ss.zipIdx.filter fun p => q p.1).map Prod.fst := by
    intro q
    conv_lhs => rw [← List.zipIdx_map_fst 0 ss, List.filter_map]
    rfl
  rw [bystanders, contents_flatMap, hfst, List.flatMap_map]
  refine List.flatMap_congr fun p hp => ?_
  obtain ⟨hp, hfree⟩ := List.mem_filter.1 hp
  rw [h.kept_eq hp (Bool.not_eq_true' _ ▸ hfree)]

theorem Movable.contents_filter_perm (h : Movable spans ss) :
    (contents view (filter spans ss).value).Perm
      ((contestants spans ss).map (fun x => seen view x.1 x.2.2) ++
        contents view (bystanders spans ss)) := by
  have hsplit := (List.filter_append_perm (fun p => isInvolved spans ss p.1) ss.zipIdx).flatMap_right
    fun p => contents view (remains p.1 (kept (dropped spans (placed ss)).value p.1 p.2))
  rw [List.flatMap_append, ← h.apart.contents_bystanders] at hsplit
  rw [value_filter, contents_flatMap]
  exact hsplit.symm.trans ((h.contents_involved_perm view).append_right _)

/-! ## Contested imports -/

theorem mem_sited {x : Statement × Place × Target} (hx : x ∈ sited ss) :
    x.2 ∈ placed ss ∧ (x.1, x.2.2) ∈ owned ss :=
  ⟨map_snd_sited ss ▸ List.mem_map_of_mem hx,
    map_sited ss ▸ List.mem_map_of_mem (f := fun x => (x.1, x.2.2)) hx⟩

theorem isInvolved_of_isContested {s : Statement} {t : Target} (ht : (s, t) ∈ owned ss)
    (hcontested : isContested spans ss t = true) : isInvolved spans ss s = true :=
  List.any_eq_true.2 ⟨t, (mem_owned.1 ht).2, hcontested⟩

/-- The contested imports that stay. -/
def rivals (spans : List Span) (ss : List Statement) : List (Statement × Place × Target) :=
  (sited ss).filter fun x =>
    isContested spans ss x.2.2 && !(dropped spans (placed ss)).value.contains x.2.1

/-- The other imports that stay, of declarations with contested ones. -/
def companions (spans : List Span) (ss : List Statement) : List (Statement × Target) :=
  (owned ss).filter fun y =>
    isInvolved spans ss y.1 && !isContested spans ss y.2 && stays spans ss y.2

theorem companions_perm (hp : ss.Perm ts) :
    (companions spans ss).Perm (companions spans ts) := by
  rw [companions, companions, isInvolved_perm hp, isContested_perm hp, stays_perm hp]
  exact (owned_perm hp).filter _

theorem Apart.contestants_perm (h : Apart spans ss) :
    ((contestants spans ss).map fun x => seen view x.1 x.2.2).Perm
      ((rivals spans ss).map (fun x => seen view x.1 x.2.2) ++
        (companions spans ss).map fun y => seen view y.1 y.2) := by
  have hrivals : (contestants spans ss).filter (fun x => isContested spans ss x.2.2) =
      rivals spans ss := by
    rw [contestants, rivals, List.filter_filter]
    refine List.filter_congr fun x hx => ?_
    cases hcontested : isContested spans ss x.2.2 with
    | true => rw [isInvolved_of_isContested (mem_sited hx).2 hcontested, Bool.true_and]
    | false => rw [Bool.false_and, Bool.false_and]
  have hcompanions :
      ((contestants spans ss).filter fun x => !isContested spans ss x.2.2).map
          (fun x => (x.1, x.2.2)) = companions spans ss := by
    rw [contestants, companions, List.filter_filter, ← map_sited, List.filter_map]
    congr 1
    refine List.filter_congr fun x hx => ?_
    cases hcontested : isContested spans ss x.2.2 with
    | true => simp [hcontested]
    | false =>
      rw [h.not_contains_dropped (mem_sited hx).1 hcontested]
      simp [hcontested]
  have hsplit := (List.filter_append_perm (fun x => isContested spans ss x.2.2)
    (contestants spans ss)).map fun x => seen view x.1 x.2.2
  rw [List.map_append, hrivals] at hsplit
  rw [← hcompanions, List.map_map]
  exact hsplit.symm

/-- Contested imports of one path agree on their name. -/
theorem rename_eq_of_isContested {t u : Target} (ht : isContested spans ss t = true)
    (hu : isContested spans ss u = true) (hkey : t.key = u.key) : t.rename = u.rename := by
  have ht' := isContested_and_key spans ss u.key t
  have hu' := isContested_and_key spans ss u.key u
  rw [ht, hkey, beq_self_eq_true, Bool.and_true] at ht'
  rw [hu, beq_self_eq_true, Bool.and_true] at hu'
  split at ht'
  · rename_i hlt
    rw [if_pos hlt] at hu'
    rw [(isPlain_iff.1 ht'.symm).1, (isPlain_iff.1 hu'.symm).1]
  · rename_i hnot
    rw [if_neg hnot] at hu'
    split at ht'
    · rename_i hlt
      rw [if_pos hlt] at hu'
      rw [(isDiscard_iff.1 ht'.symm).1, (isDiscard_iff.1 hu'.symm).1]
    · cases ht'

/-- Contested imports of one path cannot be told apart by what is seen of them. -/
def Alike (spans : List Span) (ss : List Statement) : Prop :=
  ∀ y ∈ owned ss, ∀ z ∈ owned ss, isContested spans ss y.2 = true → isContested spans ss z.2 = true →
    y.2.key = z.2.key → seen view y.1 y.2 = seen view z.1 z.2

open Classical in
theorem Apart.count_rivals (h : Apart spans ss) (halike : Alike view spans ss) (l : β × Target) :
    ((rivals spans ss).map fun x => seen view x.1 x.2.2).count l =
      if ∃ y ∈ owned ss, isContested spans ss y.2 = true ∧ seen view y.1 y.2 = l then
        contestedLeft spans ss l.2.key
      else 0 := by
  split
  · rename_i hex
    obtain ⟨y, hy, hcontested, rfl⟩ := hex
    have hsited : ∀ q : Place × Target → Bool,
        ((placed ss).filter q).length = ((sited ss).filter fun x => q x.2).length := by
      intro q
      rw [← map_snd_sited, List.filter_map, List.length_map]
      rfl
    rw [← h.length_contested, hsited, List.count_eq_countP, List.countP_map,
      List.countP_eq_length_filter, rivals, List.filter_filter]
    congr 1
    refine List.filter_congr fun x hx => ?_
    cases hx' : isContested spans ss x.2.2 with
    | false => simp
    | true =>
      have hsame : (seen view x.1 x.2.2 == seen view y.1 y.2) = (x.2.2.key == y.2.key) := by
        rw [Bool.eq_iff_iff, beq_iff_eq, beq_iff_eq]
        exact ⟨congrArg fun l : β × Target => l.2.key,
          halike _ (mem_sited hx).2 y hy hx' hcontested⟩
      rw [Function.comp_apply, Bool.true_and, Bool.true_and, hsame, Bool.and_comm]
      rfl
  · rename_i hno
    refine List.count_eq_zero.2 fun hmem => ?_
    obtain ⟨x, hx, rfl⟩ := List.mem_map.1 hmem
    obtain ⟨hx, hstays⟩ := List.mem_filter.1 hx
    rw [Bool.and_eq_true] at hstays
    exact hno ⟨_, (mem_sited hx).2, hstays.1, rfl⟩

theorem Alike.perm (h : Alike view spans ss) (hp : ss.Perm ts) : Alike view spans ts := by
  intro y hy z hz
  rw [← isContested_perm hp]
  exact h y ((owned_perm hp).mem_iff.2 hy) z ((owned_perm hp).mem_iff.2 hz)

/-- As many contested imports stay in one order as in another. -/
theorem Apart.rivals_perm (h : Apart spans ss) (halike : Alike view spans ss) (hp : ss.Perm ts) :
    ((rivals spans ss).map fun x => seen view x.1 x.2.2).Perm
      ((rivals spans ts).map fun x => seen view x.1 x.2.2) := by
  classical
  refine List.perm_iff_count.2 fun l => ?_
  rw [h.count_rivals view halike, (h.perm hp).count_rivals view (halike.perm view hp),
    isContested_perm hp, contestedLeft_perm hp]
  simp only [(owned_perm hp).mem_iff]

theorem Movable.contents_perm (h : Movable spans ss) (halike : Alike view spans ss)
    (hp : ss.Perm ts) :
    (contents view (filter spans ss).value).Perm (contents view (filter spans ts).value) := by
  have hparts : ∀ us : List Statement, Movable spans us →
      (contents view (filter spans us).value).Perm
        ((rivals spans us).map (fun x => seen view x.1 x.2.2) ++
          (companions spans us).map (fun y => seen view y.1 y.2) ++
          contents view (bystanders spans us)) := fun us hus =>
    (hus.contents_filter_perm view).trans ((hus.apart.contestants_perm view).append_right _)
  have hrivals := h.apart.rivals_perm view halike hp
  have hcompanions : (companions spans ss).Perm (companions spans ts) := companions_perm hp
  have hbystanders : (contents view (bystanders spans ss)).Perm
      (contents view (bystanders spans ts)) := (bystanders_perm hp).flatMap_right _
  exact (hparts ss h).trans (((hrivals.append (hcompanions.map _)).append hbystanders).trans
    (hparts ts (h.perm hp)).symm)

/-- Contested imports are alike if what is seen of their declarations is. -/
theorem Movable.alike (h : Movable spans ss)
    (hview : ∀ s ∈ ss, ∀ s' ∈ ss, ∀ t ∈ s.tree.targets, ∀ t' ∈ s'.tree.targets,
      isContested spans ss t = true → isContested spans ss t' = true → t.key = t'.key →
      view s.visibility s.attributes = view s'.visibility s'.attributes) :
    Alike view spans ss := by
  rintro ⟨s, t⟩ hy ⟨s', t'⟩ hz ht ht' hkey
  obtain ⟨hs, hmem⟩ := mem_owned.1 hy
  obtain ⟨hs', hmem'⟩ := mem_owned.1 hz
  have hplace := (worded_targets (h.read s hs).grammatical hmem).samePlace_of_key
    (worded_targets (h.read s' hs').grammatical hmem') hkey
  exact Prod.ext (hview s hs s' hs' t hmem t' hmem' ht ht' hkey)
    (hplace.bare_eq (rename_eq_of_isContested ht ht' hkey))

end Order

/-- The imports that stay do not depend on the order of the declarations. Neither do the visibility
and the attributes of their declarations, if those of the contested imports of a path agree. -/
theorem filter_perm {spans : List Span} {ss ts : List Statement} (h : Movable spans ss)
    (hp : ss.Perm ts) :
    (Statement.allImports (filter spans ss).value).Perm
        (Statement.allImports (filter spans ts).value) ∧
      ((∀ s ∈ ss, ∀ s' ∈ ss, ∀ t ∈ s.tree.targets, ∀ t' ∈ s'.tree.targets,
          isContested spans ss t = true → isContested spans ss t' = true → t.key = t'.key →
          s.visibility = s'.visibility ∧ s.attributes = s'.attributes) →
        (contents Prod.mk (filter spans ss).value).Perm
          (contents Prod.mk (filter spans ts).value)) := by
  refine ⟨?_, fun hsame => ?_⟩
  · have hcontents := h.contents_perm (fun _ _ => ())
      (h.alike (fun _ _ => ()) fun _ _ _ _ _ _ _ _ _ _ _ => rfl) hp
    have himports := hcontents.map Prod.snd
    rwa [map_snd_contents, map_snd_contents] at himports
  · refine h.contents_perm Prod.mk (h.alike Prod.mk ?_) hp
    intro s hs s' hs' t ht t' ht' hc hc' hkey
    obtain ⟨hvis, hattr⟩ := hsame s hs s' hs' t ht t' ht' hc hc' hkey
    rw [hvis, hattr]

/-- `use a::{T, b}; use a::T; use a::T as _;`. -/
def sampleTied : List Statement :=
  [{ tree := .node ⟨"a", none, letterAt 4⟩
      [.node ⟨"T", none, letterAt 8⟩ [], .node ⟨"b", none, letterAt 11⟩ []] },
   { tree := .node ⟨"a", none, letterAt 19⟩ [.node ⟨"T", none, letterAt 22⟩ []] },
   { tree := .node ⟨"a", none, letterAt 29⟩ [.node ⟨"T", some "_", letterAt 32⟩ []] }]

theorem readable_sampleTied : ∀ s ∈ sampleTied, s.tree.Readable := by
  have word : ∀ n ∈ ["a", "T", "b"], Token.isSegmentWord n = true := by decide +kernel
  have rename : Token.isIdentifier "_".toList = true := by decide +kernel
  have leaf : ∀ n ∈ ["a", "T", "b"], ∀ column,
      (UseTree.node ⟨n, none, letterAt column⟩ []).GrammaticalBelow := fun n hn column =>
    .leaf (word n hn) fun r hr => by cases hr
  have branch : ∀ column cs, cs ≠ [] → (∀ c ∈ cs, UseTree.GrammaticalBelow c) →
      (UseTree.node ⟨"a", none, letterAt column⟩ cs).Readable := fun column cs hne hcs =>
    readable_iff.2 ⟨rfl, .branch (word "a" (by decide)) rfl hne hcs⟩
  intro s hs
  simp only [sampleTied, List.mem_cons, List.not_mem_nil, or_false] at hs
  rcases hs with rfl | rfl | rfl <;> refine branch _ _ (List.cons_ne_nil _ _) fun c hc => ?_
  · rcases List.mem_pair.1 hc with rfl | rfl
    · exact leaf "T" (by decide) 8
    · exact leaf "b" (by decide) 11
  · exact List.mem_singleton.1 hc ▸ leaf "T" (by decide) 22
  · exact List.mem_singleton.1 hc ▸ .leaf (word "T" (by decide)) fun r hr => by
      cases hr
      exact rename

theorem movable_sampleTied : Movable [letterAt 8, letterAt 22] sampleTied where
  read := readable_sampleTied
  distinct := by decide +kernel
  apart := by
    unfold Apart
    decide +kernel
  ends := by decide +kernel

/-- If both `T` are reported, the first one stays. In one order this is the one next to `b`, and in
the other not. -/
theorem filter_perm_sampleTied :
    Movable [letterAt 8, letterAt 22] sampleTied ∧
      (contents Prod.mk (filter [letterAt 8, letterAt 22] sampleTied).value).Perm
        (contents Prod.mk (filter [letterAt 8, letterAt 22] sampleTied.reverse).value) :=
  ⟨movable_sampleTied, (filter_perm movable_sampleTied (List.reverse_perm _).symm).2
    (by decide +kernel)⟩

/-- The declarations of a document have no repeated imports, but in reverse order they keep other
ones. -/
def OrderMatters (spans : List Span) (text : List Char) : Prop :=
  let ss := (Document.scan text).value.statements
  (∀ s ∈ ss, s.tree.targets.Pairwise fun t u => (t.path, t.isGlob) ≠ (u.path, u.isGlob)) ∧
    ¬ (contents Prod.mk (filter spans ss).value).Perm
      (contents Prod.mk (filter spans ss.reverse).value)

/-- The fields of an import, which can be compared, with the visibility and the attributes. -/
def fields (x : (Option String × List String) × Target) :
    (Option String × List String) × List String × Option String × Bool :=
  (x.1, x.2.path, x.2.rename, x.2.isGlob)

/-- A test whether the order matters. -/
def differsReversed (spans : List Span) (text : List Char) : Bool :=
  let ss := (Document.scan text).value.statements
  decide (∀ s ∈ ss, s.tree.targets.Pairwise fun t u => (t.path, t.isGlob) ≠ (u.path, u.isGlob)) &&
    !((contents Prod.mk (filter spans ss).value).map fields).isPerm
      ((contents Prod.mk (filter spans ss.reverse).value).map fields)

theorem orderMatters_of_differsReversed {spans : List Span} {text : List Char}
    (h : differsReversed spans text = true) : OrderMatters spans text := by
  rw [differsReversed, Bool.and_eq_true, decide_eq_true_eq, Bool.not_eq_true'] at h
  exact ⟨h.1, fun hperm =>
    Bool.false_ne_true (h.2.symm.trans (List.isPerm_iff.2 (hperm.map fields)))⟩

/-- The order matters if the declarations of contested imports differ in their visibility, if a path
is reported both ways, and if a `self` under a `self` stands next to a contested import. -/
theorem filter_depends_on_order :
    OrderMatters [letterAt 7, letterAt 21] "use a::T; pub use a::T; use a::T as _;".toList ∧
      OrderMatters [letterAt 7, letterAt 17] "use a::T; use a::T as _;".toList ∧
      OrderMatters [letterAt 51]
        "use a::\x7bself::self, b as _\x7d; use a::b as _; use a::b;".toList :=
  ⟨orderMatters_of_differsReversed (by decide +kernel),
    orderMatters_of_differsReversed (by decide +kernel),
    orderMatters_of_differsReversed (by decide +kernel)⟩

end TidyUse.Unused
