import TidyUse.Document.Scan
import TidyUse.Proofs.Rebuilding
import TidyUse.Unused

/-!
# Dropping unused imports

* `Unused.value_drop_cases` : what becomes of one reported import;
* `Unused.mayGo_of_mem_dropped` : only reported imports and imports as `_` go;
* `Unused.remains`, `Unused.value_filter` : a declaration is built again from what is kept of it;
* `Unused.filter_keeps_unreported` : any other import stays, unless a later import of the same
  declaration takes its place.
-/

namespace TidyUse.Unused

open UseTree

/-! ## Places -/

theorem mem_placedIn {s : Statement} {i : Nat} {p : Place × Target} :
    p ∈ placedIn s i ↔ p.1.1 = i ∧ s.tree.targets[p.1.2]? = some p.2 := by
  rw [placedIn, List.mem_map]
  constructor
  · rintro ⟨q, hq, rfl⟩
    exact ⟨rfl, List.mem_zipIdx_iff_getElem?.1 hq⟩
  · rintro ⟨rfl, hp⟩
    exact ⟨(p.2, p.1.2), List.mem_zipIdx_iff_getElem?.2 hp, rfl⟩

theorem mem_placed {ss : List Statement} {p : Place × Target} :
    p ∈ placed ss ↔ ∃ s, ss[p.1.1]? = some s ∧ s.tree.targets[p.1.2]? = some p.2 := by
  rw [placed, List.mem_flatMap]
  constructor
  · rintro ⟨q, hq, hp⟩
    obtain ⟨hi, ht⟩ := mem_placedIn.1 hp
    exact ⟨q.1, hi ▸ List.mem_zipIdx_iff_getElem?.1 hq, ht⟩
  · rintro ⟨s, hs, ht⟩
    exact ⟨(s, p.1.1), List.mem_zipIdx_iff_getElem?.2 hs, mem_placedIn.2 ⟨rfl, ht⟩⟩

/-- An import is told by its place. -/
theorem eq_of_mem_placed {ss : List Statement} {p q : Place × Target} (hp : p ∈ placed ss)
    (hq : q ∈ placed ss) (h : p.1 = q.1) : p = q := by
  obtain ⟨s, hs, ht⟩ := mem_placed.1 hp
  obtain ⟨s', hs', ht'⟩ := mem_placed.1 hq
  rw [h, hs', Option.some.injEq] at hs
  subst hs
  rw [h, ht', Option.some.injEq] at ht
  exact Prod.ext h ht.symm

theorem map_snd_placedIn (s : Statement) (i : Nat) :
    (placedIn s i).map Prod.snd = s.tree.targets := by
  rw [placedIn, List.map_map]
  exact List.zipIdx_map_fst 0 _

/-! ## Steps -/

/-- What a step can do: a reported import without a name of its own makes its twin go, if it has
one, and any other reported import goes itself. -/
theorem value_drop_cases (all : List (Place × Target)) (gone : List Place) (p : Place × Target) :
    (∃ twin, p.2.rename = none ∧ discardTwin all gone p.2.key = some twin ∧
        (drop all gone p).value = twin :: gone) ∨
      (p.2.rename = none → discardTwin all gone p.2.key = none) ∧
        (drop all gone p).value = p.1 :: gone := by
  unfold drop
  split
  · rename_i twin hnone htwin
    exact Or.inl ⟨twin, hnone, htwin, rfl⟩
  · rename_i hother
    refine Or.inr ⟨fun hnone => ?_, rfl⟩
    cases htwin : discardTwin all gone p.2.key with
    | none => rfl
    | some twin => exact absurd htwin (hother twin hnone)

theorem discardTwin_eq_some {all : List (Place × Target)} {gone : List Place} {key : String}
    {twin : Place} (h : discardTwin all gone key = some twin) :
    ∃ t, (twin, t) ∈ all ∧ t.rename = some discardName := by
  obtain ⟨p, hp, rfl⟩ := Option.map_eq_some_iff.1 h
  have hsome := List.find?_some hp
  simp only [Bool.and_eq_true, beq_iff_eq] at hsome
  exact ⟨p.2, List.mem_of_find?_eq_some hp, hsome.1.1⟩

theorem value_dropped (spans : List Span) (all : List (Place × Target)) :
    (dropped spans all).value =
      (all.filter fun p => isReported spans p.2).foldl (fun gone p => (drop all gone p).value) [] :=
  Traced.value_foldlM _ _ _

/-- The import at a place may go: it is reported, or it is one as `_`. -/
def MayGo (spans : List Span) (all : List (Place × Target)) (q : Place) : Prop :=
  ∃ t, (q, t) ∈ all ∧ (isReported spans t = true ∨ t.rename = some discardName)

theorem mayGo_of_mem_drop {spans : List Span} {all : List (Place × Target)} {gone : List Place}
    (hgone : ∀ q ∈ gone, MayGo spans all q) {p : Place × Target} (hp : p ∈ all)
    (hreported : isReported spans p.2 = true) {q : Place} (hq : q ∈ (drop all gone p).value) :
    MayGo spans all q := by
  rcases value_drop_cases all gone p with ⟨twin, -, htwin, hvalue⟩ | ⟨-, hvalue⟩
  · rw [hvalue] at hq
    rcases List.mem_cons.1 hq with rfl | hq
    · obtain ⟨t, ht, hdiscard⟩ := discardTwin_eq_some htwin
      exact ⟨t, ht, Or.inr hdiscard⟩
    · exact hgone q hq
  · rw [hvalue] at hq
    rcases List.mem_cons.1 hq with rfl | hq
    · exact ⟨p.2, hp, Or.inl hreported⟩
    · exact hgone q hq

/-- Only reported imports and imports as `_` go. -/
theorem mayGo_of_mem_dropped {spans : List Span} {all : List (Place × Target)} :
    ∀ q ∈ (dropped spans all).value, MayGo spans all q := by
  rw [value_dropped]
  refine List.foldlRecOn (motive := fun gone => ∀ q ∈ gone, MayGo spans all q) _ _
    (fun q hq => absurd hq List.not_mem_nil) fun gone hgone p hp q hq => ?_
  obtain ⟨hp, hreported⟩ := List.mem_filter.1 hp
  exact mayGo_of_mem_drop hgone hp hreported hq

/-! ## What remains of a declaration -/

def kept (gone : List Place) (s : Statement) (i : Nat) : List Target :=
  ((placedIn s i).filter fun p => !gone.contains p.1).map Prod.snd

/-- The declaration with some of its imports, if there are any. -/
def remains (s : Statement) : List Target → List Statement
  | [] => []
  | t :: ts =>
    if ts.length + 1 = s.tree.targets.length then [s]
    else [{ s with tree := (ofTargets t ts).sort }]

theorem targets_ne_nil (t : UseTree) : t.targets ≠ [] := fun h =>
  imports_ne_nil t (by rw [imports, h, List.map_nil])

theorem kept_eq (gone : List Place) (s : Statement) (i : Nat) :
    kept gone s i =
      (s.tree.targets.zipIdx.filter fun q => !gone.contains (i, q.2)).map Prod.fst := by
  rw [kept, placedIn, List.filter_map, List.map_map]
  rfl

theorem kept_sublist (gone : List Place) (s : Statement) (i : Nat) :
    (kept gone s i).Sublist s.tree.targets := by
  have h := (List.filter_sublist (p := fun p => !gone.contains p.1) (l := placedIn s i)).map Prod.snd
  rwa [map_snd_placedIn] at h

theorem value_rebuild (gone : List Place) (s : Statement) (i : Nat) :
    (rebuild gone s i).value = remains s (kept gone s i) := by
  have hlength : (placedIn s i).length = s.tree.targets.length := by
    rw [← List.length_map Prod.snd, map_snd_placedIn]
  have hall : (placedIn s i).isEmpty = false := by
    rw [List.isEmpty_eq_false_iff, ← List.length_pos_iff, hlength, List.length_pos_iff]
    exact targets_ne_nil _
  unfold rebuild kept
  dsimp only
  cases hkept : (placedIn s i).filter fun p => !gone.contains p.1 with
  | nil =>
    rw [hall]
    rfl
  | cons p ps =>
    rw [List.map_cons, remains, List.length_map, hlength]
    dsimp only
    split <;> rfl

theorem value_filter (spans : List Span) (ss : List Statement) :
    (filter spans ss).value =
      ss.zipIdx.flatMap fun p => remains p.1 (kept (dropped spans (placed ss)).value p.1 p.2) := by
  rw [filter, Traced.value_bind, Traced.value_flatMap]
  exact List.flatMap_congr fun p _ => value_rebuild ..

/-- The imports of a declaration that can be written have one root. -/
theorem rooted_targets {t : UseTree} (h : t.Grammatical) : Rooted t.name t.targets where
  path _ hu := (h.imports (List.mem_map_of_mem hu)).1
  globs _ hu := (h.imports (List.mem_map_of_mem hu)).2.2.1

theorem worded_targets {t : UseTree} (h : t.Grammatical) {u : Target} (hu : u ∈ t.targets) :
    u.Worded := by
  obtain ⟨⟨p, hpath⟩, hwords, -⟩ := h.imports (List.mem_map_of_mem hu)
  refine ⟨?_, hwords⟩
  rw [← u.bare_path, hpath]
  exact List.cons_ne_nil _ _

/-- An import that does not go is kept, and behind it some of the later ones. -/
theorem exists_kept_eq {gone : List Place} {s : Statement} {i : Nat} {f : Target}
    {before after : List Target} (hf : s.tree.targets = before ++ f :: after)
    (hstays : (i, before.length) ∉ gone) :
    ∃ earlier later, kept gone s i = earlier ++ f :: later ∧ later.Sublist after := by
  let stay : Target × Nat → Bool := fun q => !gone.contains (i, q.2)
  have hstays' : stay (f, 0 + before.length) = true := by simpa [stay] using hstays
  refine ⟨(before.zipIdx.filter stay).map Prod.fst,
    ((after.zipIdx (0 + before.length + 1)).filter stay).map Prod.fst, ?_, ?_⟩
  · rw [kept_eq, hf, List.zipIdx_append, List.zipIdx_cons, List.filter_append,
      List.filter_cons_of_pos hstays', List.map_append, List.map_cons]
  · have hsub := (List.filter_sublist (p := stay)
      (l := after.zipIdx (0 + before.length + 1))).map Prod.fst
    rwa [List.zipIdx_map_fst] at hsub

/-- What remains of a declaration holds each import that is kept, or a later one of its path and
kind. -/
theorem exists_mem_remains {s : Statement} (hs : s.tree.Grammatical) {ks earlier later : List Target}
    (hsub : ks.Sublist s.tree.targets) {f : Target} (hks : ks = earlier ++ f :: later)
    (hself : ¬ f.EndsInSelf) :
    ∃ r ∈ remains s ks, r.visibility = s.visibility ∧ r.attributes = s.attributes ∧
      ∃ g ∈ f :: later, g.SamePlace f ∧ g.bare ∈ r.tree.imports := by
  obtain ⟨t, ts, hcons⟩ := List.exists_cons_of_ne_nil (l := ks) (by simp [hks])
  have hroot : Rooted s.tree.name (t :: ts) := (rooted_targets hs).sublist (hcons ▸ hsub)
  rw [hcons, remains]
  split
  · refine ⟨s, List.mem_singleton_self _, rfl, rfl, f, List.mem_cons_self, ⟨rfl, rfl⟩, ?_⟩
    refine List.mem_map_of_mem (hsub.subset ?_)
    rw [hks]
    exact List.mem_append_right _ List.mem_cons_self
  · obtain ⟨g, hg, hgf, hmem⟩ := hroot.exists_mem_ofTargets (hcons.symm.trans hks) hself
    exact ⟨_, List.mem_singleton_self _, rfl, rfl, g, hg, hgf,
      (imports_sort_perm _).mem_iff.2 hmem⟩

/-- An import that is not reported, and is not one as `_`, stays with the visibility and the
attributes it has, or else a later import of its path and kind in the same declaration does. -/
theorem filter_keeps_unreported (spans : List Span) {ss : List Statement}
    (hread : ∀ s ∈ ss, s.tree.Readable) {s : Statement} (hs : s ∈ ss) {f : Target}
    {before after : List Target} (hf : s.tree.targets = before ++ f :: after)
    (hname : f.rename ≠ some discardName)
    (hfree : ∀ leaf, f.leafSpan = some leaf → ∀ span ∈ spans, span.contains leaf = false)
    (hself : ¬ f.EndsInSelf) :
    ∃ r ∈ (filter spans ss).value, r.visibility = s.visibility ∧ r.attributes = s.attributes ∧
      (∃ g ∈ f :: after, g.SamePlace f ∧ g.bare ∈ r.tree.imports) ∧
      ((∀ g ∈ after, g.SamePlace f → g.rename = f.rename) → f.bare ∈ r.tree.imports) := by
  obtain ⟨i, hi⟩ := List.mem_iff_getElem?.1 hs
  have hplace : ((i, before.length), f) ∈ placed ss :=
    mem_placed.2 ⟨s, hi, by rw [hf]; simp⟩
  have hreported : isReported spans f = false := by
    rw [isReported]
    cases hleaf : f.leafSpan with
    | none => rfl
    | some leaf =>
      rw [Option.any_some, List.any_eq_false]
      exact fun span hspan => Bool.eq_false_iff.1 (hfree leaf hleaf span hspan)
  have hstays : (i, before.length) ∉ (dropped spans (placed ss)).value := by
    intro hgone
    obtain ⟨t, ht, hor⟩ := mayGo_of_mem_dropped _ hgone
    cases eq_of_mem_placed ht hplace rfl
    rcases hor with h | h
    · rw [hreported] at h
      cases h
    · exact hname h
  obtain ⟨earlier, later, hkept, hlater⟩ := exists_kept_eq hf hstays
  obtain ⟨r, hr, hvis, hattr, g, hg, hgf, hmem⟩ := exists_mem_remains (hread s hs).grammatical
    (kept_sublist _ s i) hkept hself
  have hg' : g ∈ f :: after := (hlater.cons_cons f).subset hg
  refine ⟨r, ?_, hvis, hattr, ⟨g, hg', hgf, hmem⟩, fun hlast => ?_⟩
  · rw [value_filter]
    exact List.mem_flatMap.2 ⟨(s, i), List.mem_zipIdx_iff_getElem?.2 hi, hr⟩
  · have hrename : g.rename = f.rename := by
      rcases List.mem_cons.1 hg' with rfl | hg'
      · rfl
      · exact hlast g hg' hgf
    exact hgf.bare_eq hrename ▸ hmem

/-- The place of a letter in the first line. -/
def letterAt (column : Int) : Span := ⟨⟨0, column⟩, ⟨0, column + 1⟩⟩

/-- `use a::{b, c as d, *, e};`. -/
def sampleShrunk : Statement where
  tree := .node ⟨"a", none, letterAt 4⟩
    [.node ⟨"b", none, letterAt 8⟩ [], .node ⟨"c", some "d", letterAt 11⟩ [],
     .glob ⟨globName, none, letterAt 19⟩, .node ⟨"e", none, letterAt 22⟩ []]

theorem readable_sampleShrunk : sampleShrunk.tree.Readable := by
  have word : ∀ n ∈ ["a", "b", "c", "e"], Token.isSegmentWord n = true := by decide +kernel
  have rename : Token.isIdentifier "d".toList = true := by decide +kernel
  refine readable_iff.2 ⟨rfl, .branch (word "a" (by decide)) rfl (List.cons_ne_nil _ _) ?_⟩
  intro c hc
  simp only [List.mem_cons, List.not_mem_nil, or_false] at hc
  rcases hc with rfl | rfl | rfl | rfl
  · exact .leaf (word "b" (by decide)) fun r hr => by cases hr
  · exact .leaf (word "c" (by decide)) fun r hr => by cases hr; exact rename
  · exact .glob rfl rfl
  · exact .leaf (word "e" (by decide)) fun r hr => by cases hr

/-- If `e` is reported, `c` is still imported as `d`. -/
theorem filter_keeps_sampleShrunk :
    sampleShrunk.tree.Readable ∧
      ∃ r ∈ (filter [letterAt 22] [sampleShrunk]).value,
        { path := ["a", "c"], rename := some "d" } ∈ r.tree.imports := by
  have hread : ∀ s ∈ [sampleShrunk], s.tree.Readable := fun s hs =>
    List.mem_singleton.1 hs ▸ readable_sampleShrunk
  have hf : sampleShrunk.tree.targets =
      [{ path := ["a", "b"], spans := [letterAt 4, letterAt 8] }] ++
        { path := ["a", "c"], rename := some "d", spans := [letterAt 4, letterAt 11] } ::
        [{ path := ["a"], isGlob := true, spans := [letterAt 4, letterAt 19] },
         { path := ["a", "e"], spans := [letterAt 4, letterAt 22] }] := rfl
  have hfree : ∀ leaf, some (letterAt 11) = some leaf →
      ∀ span ∈ [letterAt 22], span.contains leaf = false := by
    rintro leaf ⟨⟩
    decide
  obtain ⟨r, hr, -, -, -, hmem⟩ := filter_keeps_unreported [letterAt 22] hread
    List.mem_cons_self hf (by decide) hfree (by decide)
  exact ⟨readable_sampleShrunk, r, hr, hmem (by decide)⟩

/-- The same path under two names, and another one. -/
def sampleRepeated : List Char := "use a::\x7bb as x, b as y, d\x7d;".toList

/-- If `d` is reported, `b` is no longer imported as `x`: of the two imports that remain, the later
one takes the place of the other. -/
theorem filter_loses_sampleRepeated :
    let ss := (Document.scan sampleRepeated).value.statements
    ∃ s ∈ ss, ∃ f ∈ s.tree.targets, f.rename ≠ some discardName ∧
      (∀ leaf, f.leafSpan = some leaf → ∀ span ∈ [letterAt 24], span.contains leaf = false) ∧
      ∀ r ∈ (filter [letterAt 24] ss).value, f.bare ∉ r.tree.imports := by
  intro ss
  have hany : (ss.any fun s => s.tree.targets.any fun f => f.rename == some "x" &&
      f.leafSpan == some (letterAt 8)) = true := by decide +kernel
  have hall : ((filter [letterAt 24] ss).value.all fun r => r.tree.targets.all fun t =>
      t.rename != some "x") = true := by decide +kernel
  obtain ⟨s, hs, hany⟩ := List.any_eq_true.1 hany
  obtain ⟨f, hf, hboth⟩ := List.any_eq_true.1 hany
  rw [Bool.and_eq_true, beq_iff_eq, beq_iff_eq] at hboth
  obtain ⟨hname, hplace⟩ := hboth
  refine ⟨s, hs, f, hf, ?_, ?_, fun r hr hmem => ?_⟩
  · rw [hname]
    decide
  · rw [hplace]
    rintro leaf ⟨⟩
    decide
  · obtain ⟨t, ht, hbare⟩ := List.mem_map.1 hmem
    have hne := List.all_eq_true.1 (List.all_eq_true.1 hall r hr) t ht
    rw [bne_iff_ne, ← Target.bare_rename, hbare, Target.bare_rename] at hne
    exact hne hname

end TidyUse.Unused
