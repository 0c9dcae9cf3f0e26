import TidyUse.Proofs.Outline
import TidyUse.Proofs.Sections

/-!
# Organized text is canonical

Merging is the only step that looks at how declarations stand to each other. What it makes of a
bucket is told by the imports of the bucket, and a bucket that was merged before is left alone.

* `Target.Winners.bare_perm` : the imports there are tell which of them win;
* `Statement.Together.unite_cases` : what uniting gives, told by the imports;
* `Group.render_organize_perm` : the text does not depend on the order of the declarations;
* `Statement.Fixed` : declarations that merging leaves alone; `Statement.Bucket.map_plain_of_fixed`;
* `Group.render_organize_scan` : organized text is scanned and organized to itself.
-/

namespace TidyUse

/-! ## Winners -/

theorem rename_eq_of_rank {r r' : Option String} (hrank : renameRank r = renameRank r')
    (hname : renameRank r = 2 → r = r') : r = r' := by
  by_cases htwo : renameRank r = 2
  · exact hname htwo
  · -- below the explicit names, each rank has one name
    have hlow : ∀ s, renameRank s ≠ 2 →
        s = if renameRank s = 1 then none else some discardName := by
      intro s hs
      cases s with
      | none => rfl
      | some name =>
        by_cases hn : name = discardName
        · subst hn
          rfl
        · simp [renameRank, hn] at hs
    rw [hlow r htwo, hlow r' (hrank ▸ htwo), hrank]

namespace Target

theorem Winners.nodup_bare {ts us : List Target} (hw : Winners ts us) : (us.map bare).Nodup := by
  have hkeys : ((us.map bare).map key).Nodup := by
    rw [List.map_map, show key ∘ bare = key from rfl, hw.keys]
    exact nodup_distinct _
  exact hkeys.of_map

theorem Winners.bare_mem {ts us ts' us' : List Target} (hw : Winners ts us)
    (hw' : Winners ts' us') (hword : ∀ t ∈ ts, t.Worded) (hword' : ∀ t ∈ ts', t.Worded)
    (h : ∀ i, i ∈ ts.map bare ↔ i ∈ ts'.map bare) {u : Target} (hu : u ∈ us) :
    u.bare ∈ us'.map bare := by
  obtain ⟨t', ht', htu⟩ := List.mem_map.1 ((h u.bare).1 (List.mem_map_of_mem (hw.mem u hu)))
  have hkey : t'.key ∈ us'.map key := by
    rw [hw'.keys, mem_distinct]
    exact List.mem_map_of_mem ht'
  obtain ⟨v, hv, hvt⟩ := List.mem_map.1 hkey
  obtain ⟨t, ht, hvt'⟩ := List.mem_map.1 ((h v.bare).2 (List.mem_map_of_mem (hw'.mem v hv)))
  have htu' : t'.bare.key = u.bare.key := congrArg key htu
  have huv : v.key = u.key := hvt.trans htu'
  have htv : t.bare.key = v.bare.key := congrArg key hvt'
  have hle := hw.best u hu t ht (htv.trans huv)
  have hge := hw'.best v hv t' ht' hvt.symm
  have htr : t.bare.rename = v.bare.rename := congrArg rename hvt'
  have htr' : t'.bare.rename = u.bare.rename := congrArg rename htu
  rw [bare_rename, bare_rename] at htr htr'
  rw [htr] at hle
  rw [htr'] at hge
  have hrename : v.rename = u.rename := rename_eq_of_rank (Nat.le_antisymm hle.1 hge.1) hle.2
  obtain ⟨hpath, hglob⟩ :=
    (hword' v (hw'.mem v hv)).samePlace_of_key (hword u (hw.mem u hu)) huv
  refine List.mem_map.2 ⟨v, hv, ?_⟩
  unfold bare
  rw [hpath, hglob, hrename]

/-- Which imports win is told by the imports there are. -/
theorem Winners.bare_perm {ts us ts' us' : List Target} (hw : Winners ts us)
    (hw' : Winners ts' us') (hword : ∀ t ∈ ts, t.Worded) (hword' : ∀ t ∈ ts', t.Worded)
    (h : ∀ i, i ∈ ts.map bare ↔ i ∈ ts'.map bare) : (us.map bare).Perm (us'.map bare) := by
  apply (List.perm_ext_iff_of_nodup hw.nodup_bare hw'.nodup_bare).2
  intro i
  constructor
  · intro hi
    obtain ⟨u, hu, rfl⟩ := List.mem_map.1 hi
    exact hw.bare_mem hw' hword hword' h hu
  · intro hi
    obtain ⟨u, hu, rfl⟩ := List.mem_map.1 hi
    exact hw'.bare_mem hw hword' hword (fun i => (h i).symm) hu

end Target

namespace UseTree

theorem Separate.bare {root : String} {ts : List Target} (h : Separate root ts) :
    Separate root (ts.map Target.bare) where
  rooted := by
    intro t' ht'
    obtain ⟨t, ht, rfl⟩ := List.mem_map.1 ht'
    exact h.rooted t ht
  globs := by
    intro t' ht'
    obtain ⟨t, ht, rfl⟩ := List.mem_map.1 ht'
    exact h.globs t ht
  distinct := List.pairwise_map.2 h.distinct

/-- The tree is told by the imports without their places. -/
theorem bare_ofTargets_of_perm {root : String} {t u : Target} {ts us : List Target}
    (h : Separate root (t :: ts))
    (hp : ((t :: ts).map Target.bare).Perm ((u :: us).map Target.bare)) :
    (ofTargets t ts).bare = (ofTargets u us).bare := by
  have hforget : ∀ (v : Target) (vs : List Target),
      (ofTargets v.bare (vs.map Target.bare)).bare = (ofTargets v vs).bare := by
    intro v vs
    rw [← bare_ofTargets, bare_bare]
  have htrees := bare_ofTargets_perm h.bare hp
  rw [hforget, hforget] at htrees
  exact htrees

end UseTree

namespace Statement

open UseTree

theorem conflicting_allImports {ss : List Statement} :
    Target.Conflicting (allImports ss) ↔ Target.Conflicting (allTargets ss) := by
  unfold allImports
  rw [← map_bare_allTargets, Target.conflicting_map_bare]

/-- Declarations are united unless their imports contradict each other, and the winners are the
imports of the result. -/
theorem Together.unite_cases {first : Statement} {others : List Statement}
    (h : Together first.root (first :: others)) :
    (Target.Conflicting (allImports (first :: others)) ∧ ∃ c, unite first others = .error c) ∨
      (¬ Target.Conflicting (allImports (first :: others)) ∧
        ∃ t ts, Target.Winners (allTargets (first :: others)) (t :: ts) ∧
          Separate first.root (t :: ts) ∧ unite first others = .ok
            { first with tree := (ofTargets t ts).sort, span := unionSpan (first :: others) }) := by
  rw [conflicting_allImports]
  cases hus : Target.deduplicate (allTargets (first :: others)) with
  | error c => exact Or.inl ⟨Target.deduplicate_error hus, c, unite_error hus⟩
  | ok us =>
    obtain ⟨t, ts, rfl, -, -, -, hunite⟩ := h.unite_ok hus
    have hw := Target.deduplicate_ok hus
    exact Or.inr ⟨hw.not_conflicting, t, ts, hw, h.separate hus, hunite⟩

/-- What is printed of a united declaration is told by what its members import. -/
theorem Together.plain_unite {first first' m m' : Statement} {others others' : List Statement}
    (h : Together first.root (first :: others)) (h' : Together first'.root (first' :: others'))
    (himports : ∀ i, i ∈ allImports (first :: others) ↔ i ∈ allImports (first' :: others'))
    (hvis : first.visibilityText = first'.visibilityText)
    (hattr : first.attributes = first'.attributes) (hm : unite first others = .ok m)
    (hm' : unite first' others' = .ok m') : m.plain = m'.plain := by
  rcases h.unite_cases with ⟨-, c, hc⟩ | ⟨-, t, ts, hw, hsep, hunite⟩
  · rw [hc] at hm
    cases hm
  rcases h'.unite_cases with ⟨-, c, hc⟩ | ⟨-, t', ts', hw', -, hunite'⟩
  · rw [hc] at hm'
    cases hm'
  rw [hunite] at hm
  rw [hunite'] at hm'
  cases hm
  cases hm'
  unfold allImports at himports
  rw [← map_bare_allTargets, ← map_bare_allTargets] at himports
  have hperm := hw.bare_perm hw' (fun t ht => (h.target ht).2.1) (fun t ht => (h'.target ht).2.1)
    himports
  have htree : (ofTargets t ts).sort.bare = (ofTargets t' ts').sort.bare := by
    rw [← sort_bare, ← sort_bare, bare_ofTargets_of_perm hsep hperm]
  exact plain_eq_iff.2 ⟨htree, hvis, hattr⟩

/-! ## The order of declarations -/

/-- Without a contradiction, what becomes of a bucket does not depend on its order. -/
theorem Bucket.map_plain_perm {k : String × String × List String} {ss ts : List Statement}
    (h : Bucket k ss) (hp : ss.Perm ts) (hunamb : ¬ Target.Ambiguous (allImports ss))
    (hattr : ∀ s ∈ ss, ∀ t ∈ ss, s.attributes = t.attributes) (log : Logger) :
    (mergeBucket log ss).value.map plain = (mergeBucket log ts).value.map plain := by
  cases ss with
  | nil => rw [hp.nil_eq]
  | cons first others =>
    have hmem : first ∈ ts := hp.mem_iff.1 List.mem_cons_self
    obtain ⟨first', others', rfl⟩ := List.exists_cons_of_ne_nil (List.ne_nil_of_mem hmem)
    have h' : Bucket k (first' :: others') :=
      ⟨fun s hs => h.written s (hp.mem_iff.2 hs), fun s hs => h.key s (hp.mem_iff.2 hs)⟩
    have hfirst : first' ∈ first :: others := hp.mem_iff.2 List.mem_cons_self
    have himports : ∀ i, i ∈ allImports (first :: others) ↔ i ∈ allImports (first' :: others') :=
      fun i => (hp.flatMap_right _).mem_iff
    have hkey : first.mergeKey = first'.mergeKey :=
      (h.key first List.mem_cons_self).trans (h.key first' hfirst).symm
    have hok := h.together.not_conflicting hunamb
    rw [← conflicting_allImports] at hok
    rcases h.together.unite_cases with ⟨hc, -⟩ | ⟨-, t, ts, -, -, hm⟩
    · exact absurd hc hok
    rcases h'.together.unite_cases with ⟨hc, -⟩ | ⟨-, t', ts', -, -, hm'⟩
    · exact absurd (hc.mono fun i hi => (himports i).2 hi) hok
    rw [value_mergeBucket_of_ok hm, value_mergeBucket_of_ok hm', List.map_singleton,
      List.map_singleton, h.together.plain_unite h'.together himports (congrArg (·.2.1) hkey)
        (hattr first List.mem_cons_self first' hfirst) hm hm']

end Statement

namespace Group

open Statement

/-- Without contradictions, and if attributes are written in one way, the text does not depend on
the order of the declarations. -/
theorem render_organize_perm (log : Logger) (deps : Option Dependencies) (ss ts : List Statement)
    (hp : ss.Perm ts) (hread : ∀ s ∈ ss, s.tree.Readable)
    (hunamb : ∀ k, ¬ Target.Ambiguous (importsOf k ss))
    (hattr : ∀ s ∈ ss, ∀ t ∈ ss, s.attributeKey = t.attributeKey → s.attributes = t.attributes) :
    render (organize log deps ss).value = render (organize log deps ts).value := by
  have hgram : ∀ s ∈ ss, s.tree.Grammatical := fun s hs => (hread s hs).grammatical
  have hgram' : ∀ s ∈ ts, s.tree.Grammatical := fun s hs => hgram s (hp.mem_iff.2 hs)
  have hsections : headings deps ss = headings deps ts := by
    apply headings_eq
    intro k
    simp only [hp.mem_iff]
  apply render_organize_eq hsections
  intro k _
  set part := ss.filter fun s => s.heading deps == k with hpart
  have hsub : ∀ s ∈ part, s ∈ ss ∧ s.attributeKey = k.2 := by
    intro s hs
    obtain ⟨hs, hk⟩ := List.mem_filter.1 hs
    exact ⟨hs, congrArg Prod.snd (beq_iff_eq.1 hk)⟩
  have hpart' : ∀ s ∈ part, s.tree.Grammatical := fun s hs => hgram s (hsub s hs).1
  unfold shown
  rw [← hpart]
  apply map_plain_sort_merge hpart'
  · intro s hs t ht
    rw [(hsub s hs).2, (hsub t ht).2]
  · intro key
    rw [filter_merge fun s hs => hgram' s (List.mem_filter.1 hs).1]
    apply (bucket_filter hpart' key).map_plain_perm
    · exact (hp.filter _).filter _
    · intro hamb
      refine hunamb key (hamb.mono fun i hi => ?_)
      obtain ⟨s, hs, hi⟩ := List.mem_flatMap.1 hi
      obtain ⟨hs, hkey⟩ := List.mem_filter.1 hs
      exact List.mem_flatMap.2 ⟨s, List.mem_filter.2 ⟨(hsub s hs).1, hkey⟩, hi⟩
    · intro s hs t ht
      have hs := hsub s (List.mem_filter.1 hs).1
      have ht := hsub t (List.mem_filter.1 ht).1
      exact hattr s hs.1 t ht.1 (hs.2.trans ht.2.symm)

theorem render_organize_perm_sample :
    let ss := sampleImports.take 3
    (∀ s ∈ ss, s.tree.Readable) ∧ (∀ k, ¬ Target.Ambiguous (importsOf k ss)) ∧
      render (organize .organizer none ss).value =
        render (organize .organizer none ss.reverse).value := by
  intro ss
  have hread : ∀ s ∈ ss, s.tree.Readable := fun s hs =>
    readable_sampleImports s (List.mem_of_mem_take hs)
  have himports : allImports ss = [{ path := ["a", "b"] }, { path := ["a", "c"], isGlob := true },
      { path := ["a", "b"], rename := some "d" }, { path := ["e", "f"], rename := some "g" }] :=
    rfl
  have hunamb : ∀ k, ¬ Target.Ambiguous (importsOf k ss) := by
    intro k hamb
    have hsub : importsOf k ss ⊆ allImports ss := by
      intro i hi
      obtain ⟨s, hs, hi⟩ := List.mem_flatMap.1 hi
      exact List.mem_flatMap.2 ⟨s, (List.mem_filter.1 hs).1, hi⟩
    obtain ⟨t, ht, u, hu, ⟨hpath, -⟩, ⟨n, hn, -⟩, ⟨n', hn', -⟩, hne⟩ := hamb.mono hsub
    rw [himports] at ht hu
    simp only [List.mem_cons, List.not_mem_nil, or_false] at ht hu
    rcases ht with rfl | rfl | rfl | rfl <;> rcases hu with rfl | rfl | rfl | rfl <;> simp_all
  refine ⟨hread, hunamb, render_organize_perm .organizer none ss ss.reverse
    (List.reverse_perm ss).symm hread hunamb ?_⟩
  intro s hs t ht _
  have hnone : ∀ s ∈ sampleImports, s.attributes = [] := by decide
  rw [hnone s (List.mem_of_mem_take hs), hnone t (List.mem_of_mem_take ht)]

end Group

/-! ## Merging what was merged -/

namespace Statement

open UseTree

theorem imports_eq_of_plain {s t : Statement} (h : s.plain = t.plain) :
    s.tree.imports = t.tree.imports := by
  rw [← imports_bare, (plain_eq_iff.1 h).1, imports_bare]

theorem grammatical_of_plain {s t : Statement} (h : s.plain = t.plain) (ht : t.tree.Grammatical) :
    s.tree.Grammatical := by
  rw [← grammatical_bare] at ht ⊢
  rw [(plain_eq_iff.1 h).1]
  exact ht

theorem allImports_eq_of_plain {ss ts : List Statement} (h : ss.map plain = ts.map plain) :
    allImports ss = allImports ts := by
  have himports : ∀ us : List Statement, allImports us = allImports (us.map plain) := by
    intro us
    unfold allImports
    rw [List.flatMap_map]
    congr 1
    funext s
    exact (imports_bare s.tree).symm
  rw [himports, h, ← himports]

/-- A declaration that is printed as before when it is merged with itself. -/
def Fixed (s : Statement) : Prop :=
  ∀ (log : Logger) (t : Statement), t.plain = s.plain → (tidy log t).value.map plain = [s.plain]

/-- Uniting gives a declaration whose imports stand for themselves. -/
theorem Together.fixed {first m : Statement} {others : List Statement}
    (h : Together first.root (first :: others)) (hends : Unended (first :: others))
    (hm : unite first others = .ok m) : Fixed m := by
  intro log s hs
  obtain ⟨-, -, -, -, hgram, -, himports⟩ := h.of_unite hm
  obtain ⟨us, hus, hperm⟩ := himports hends
  obtain ⟨t, ts, rfl, -, -, -, hunite⟩ := h.unite_ok hus
  rw [hunite] at hm
  have hw := Target.deduplicate_ok hus
  -- the winners win among themselves, and the declaration imports nothing else
  have hself : Target.Winners (t :: ts) (t :: ts) :=
    Target.deduplicate_ok (Target.deduplicate_of_nodup (hw.keys ▸ nodup_distinct _))
  have hmem : ∀ i, i ∈ (allTargets [s]).map Target.bare ↔ i ∈ (t :: ts).map Target.bare := by
    intro i
    rw [map_bare_allTargets, List.flatMap_singleton, imports_eq_of_plain hs]
    exact hperm.mem_iff
  have htog : Together s.root [s] := .singleton (grammatical_of_plain hs hgram)
  rcases htog.unite_cases with ⟨hc, -⟩ | ⟨-, t', ts', hw', hsep', hunite'⟩
  · rw [conflicting_allImports, ← Target.conflicting_map_bare] at hc
    exact absurd (Target.conflicting_map_bare.1 (hc.mono fun i hi => (hmem i).1 hi))
      hself.not_conflicting
  · have hwinners := hw'.bare_perm hself (fun u hu => (htog.target hu).2.1)
      (fun u hu => (h.target (hw.mem u hu)).2.1) hmem
    have htree : (ofTargets t' ts').sort.bare = m.tree.bare := by
      rw [← sort_bare, bare_ofTargets_of_perm hsep' hwinners, sort_bare]
      cases hm
      rfl
    unfold tidy
    rw [hunite']
    show [plain { s with tree := (ofTargets t' ts').sort, span := unionSpan [s] }] = _
    exact congrArg (fun p => [p]) (plain_eq_iff.2 ⟨htree, (plain_eq_iff.1 hs).2⟩)

/-- A declaration that contradicts itself is left as it is. -/
theorem fixed_of_conflicting {s : Statement} (hgram : s.tree.Grammatical)
    (hc : Target.Conflicting s.tree.imports) : Fixed s := by
  intro log t ht
  have htog : Together t.root [t] := .singleton (grammatical_of_plain ht hgram)
  have himports : allImports [t] = s.tree.imports := by
    rw [← imports_eq_of_plain ht]
    exact List.flatMap_singleton _ _
  rcases htog.unite_cases with ⟨-, c, hunite⟩ | ⟨hno, -⟩
  · unfold tidy
    rw [hunite]
    exact congrArg (fun p => [p]) ht
  · rw [himports] at hno
    exact absurd hc hno

/-- What is left of one declaration is fixed, once it is sorted. -/
theorem fixed_of_mem_tidy {s m : Statement} (hgram : s.tree.Grammatical) (hends : Unended [s])
    {log : Logger} (hm : m ∈ (tidy log s).value) : Fixed { m with tree := m.tree.sort } := by
  have htog : Together s.root [s] := .singleton hgram
  unfold tidy at hm
  cases hu : unite s [] with
  | ok m' =>
    rw [hu] at hm
    obtain rfl : m = m' := List.mem_singleton.1 hm
    obtain ⟨-, -, -, -, -, hsort, -⟩ := htog.of_unite hu
    rw [hsort]
    exact htog.fixed hends hu
  | error c =>
    rw [hu] at hm
    obtain rfl : m = s := List.mem_singleton.1 hm
    rcases htog.unite_cases with ⟨hc, -⟩ | ⟨-, t, ts, -, -, hunite⟩
    · apply fixed_of_conflicting hgram.sort
      refine hc.mono fun i hi => ?_
      rw [allImports, List.flatMap_singleton] at hi
      exact (imports_sort_perm m.tree).mem_iff.2 hi
    · rw [hu] at hunite
      cases hunite

/-- What is left of a bucket is fixed, once it is sorted; and it is one declaration, or it contains
the contradiction that kept the bucket apart. -/
theorem Bucket.fixed {k : String × String × List String} {ss : List Statement} (h : Bucket k ss)
    (hends : Unended ss) (log : Logger) :
    (∀ m ∈ (mergeBucket log ss).value, Fixed { m with tree := m.tree.sort }) ∧
      ((mergeBucket log ss).value.length ≤ 1 ∨
        Target.Conflicting (allImports (mergeBucket log ss).value)) := by
  cases ss with
  | nil => exact ⟨by simp [mergeBucket], Or.inl (by simp [mergeBucket])⟩
  | cons first others =>
    rcases h.together.unite_cases with ⟨hc, c, hunite⟩ | ⟨-, t, ts, -, -, hunite⟩
    · constructor
      · intro m hm
        rw [value_mergeBucket_of_error hunite, List.mem_flatMap] at hm
        obtain ⟨s, hs, hm⟩ := hm
        exact fixed_of_mem_tidy (h.written s hs)
          (fun u hu => List.mem_singleton.1 hu ▸ hends s hs) hm
      · -- merging loses no explicit name
        obtain ⟨t, ht, u, hu, hkey, htwo, htwo', hne⟩ := hc
        have hnames := (h.faithful hends log).names
        exact Or.inr ⟨t, hnames t ht (Target.explicit_iff.2 htwo), u,
          hnames u hu (Target.explicit_iff.2 htwo'), hkey, htwo, htwo', hne⟩
    · obtain ⟨-, -, -, -, -, hsort, -⟩ := h.together.of_unite hunite
      rw [value_mergeBucket_of_ok hunite]
      refine ⟨fun m hm => ?_, Or.inl (Nat.le_refl 1)⟩
      rw [List.mem_singleton.1 hm, hsort]
      exact h.together.fixed hends hunite

theorem value_mergeBucket_singleton (log : Logger) (s : Statement) :
    (mergeBucket log [s]).value = (tidy log s).value := by
  cases hu : unite s [] with
  | ok m =>
    rw [value_mergeBucket_of_ok hu, tidy, hu]
    rfl
  | error c => rw [value_mergeBucket_of_error hu, List.flatMap_singleton]

theorem map_plain_flatMap_tidy {ss ts : List Statement} (hplain : ss.map plain = ts.map plain)
    (hfixed : ∀ t ∈ ts, Fixed t) (log : Logger) :
    (ss.flatMap fun s => (tidy log s).value).map plain = ts.map plain := by
  induction ss generalizing ts with
  | nil => exact hplain
  | cons s ss ih =>
    cases ts with
    | nil => cases hplain
    | cons t ts =>
      obtain ⟨hs, hrest⟩ := List.cons.inj hplain
      rw [List.flatMap_cons, List.map_append, hfixed t List.mem_cons_self log s hs,
        ih hrest fun u hu => hfixed u (List.mem_cons_of_mem _ hu)]
      rfl

/-- A bucket of fixed declarations, one or with a contradiction, is left alone. -/
theorem Bucket.map_plain_of_fixed {k : String × String × List String} {ss ts : List Statement}
    (h : Bucket k ss) (hplain : ss.map plain = ts.map plain) (hfixed : ∀ t ∈ ts, Fixed t)
    (hfew : ts.length ≤ 1 ∨ Target.Conflicting (allImports ts)) (log : Logger) :
    (mergeBucket log ss).value.map plain = ts.map plain := by
  have htidy := map_plain_flatMap_tidy hplain hfixed log
  cases ss with
  | nil => simpa [mergeBucket] using hplain
  | cons first others =>
    rcases h.together.unite_cases with ⟨hc, c, hunite⟩ | ⟨hno, -⟩
    · rw [value_mergeBucket_of_error hunite]
      exact htidy
    · rw [allImports_eq_of_plain hplain] at hno
      have hlength := congrArg List.length hplain
      rw [List.length_map, List.length_map, List.length_cons] at hlength
      have hone := hfew.resolve_right hno
      obtain rfl : others = [] := List.length_eq_zero_iff.1 (by omega)
      rw [value_mergeBucket_singleton]
      rwa [List.flatMap_singleton] at htidy

theorem filter_sort_perm (ss : List Statement) (k : String × String × List String) :
    ((sort ss).filter fun s => s.mergeKey == k).Perm
      ((ss.filter fun s => s.mergeKey == k).map fun s => { s with tree := s.tree.sort }) := by
  have hperm := (List.mergeSort_perm (ss.map fun s => { s with tree := s.tree.sort }) le).filter
    fun s => s.mergeKey == k
  rw [List.filter_map] at hperm
  have hkey : ((fun s : Statement => s.mergeKey == k) ∘
      fun s : Statement => { s with tree := s.tree.sort }) = fun s => s.mergeKey == k := by
    funext s
    show ((s.tree.sort.name, s.visibilityText, s.attributeKey) == k) = _
    rw [name_sort]
    rfl
  rwa [hkey] at hperm

/-- Merged and sorted declarations of one key are fixed, and one or with a contradiction. -/
theorem fixed_filter_sort_merge {ss : List Statement} (hgram : ∀ s ∈ ss, s.tree.Grammatical)
    (hends : Unended ss) (log : Logger) (k : String × String × List String) :
    (∀ t ∈ (sort (merge log ss).value).filter fun s => s.mergeKey == k, Fixed t) ∧
      (((sort (merge log ss).value).filter fun s => s.mergeKey == k).length ≤ 1 ∨
        Target.Conflicting
          (allImports ((sort (merge log ss).value).filter fun s => s.mergeKey == k))) := by
  have hperm := filter_sort_perm (merge log ss).value k
  rw [filter_merge hgram] at hperm
  obtain ⟨hfixed, hfew⟩ := (bucket_filter hgram k).fixed
    (fun s hs => hends s (List.mem_filter.1 hs).1) log
  constructor
  · intro t ht
    obtain ⟨m, hm, rfl⟩ := List.mem_map.1 (hperm.mem_iff.1 ht)
    exact hfixed m hm
  · rw [hperm.length_eq, List.length_map]
    refine hfew.imp id fun hc => hc.mono fun i hi => ?_
    obtain ⟨m, hm, hi⟩ := List.mem_flatMap.1 hi
    exact List.mem_flatMap.2 ⟨_, hperm.mem_iff.2 (List.mem_map_of_mem hm),
      (imports_sort_perm m.tree).mem_iff.2 hi⟩

end Statement

namespace Group

open Statement

theorem comesFrom_of_mem_shown {log : Logger} {deps : Option Dependencies} {ss : List Statement}
    (hgram : ∀ s ∈ ss, s.tree.Grammatical) {k : Category × List String} {m : Statement}
    (hm : m ∈ shown log deps ss k) : ∃ s ∈ ss, s.heading deps = k ∧ ComesFrom m s := by
  obtain ⟨n, hn, rfl⟩ := mem_sort.1 hm
  obtain ⟨s, hs, hfrom⟩ := comesFrom_of_mem_merge
    (fun t ht => hgram t (List.mem_filter.1 ht).1) hn
  obtain ⟨hs, hk⟩ := List.mem_filter.1 hs
  exact ⟨s, hs, beq_iff_eq.1 hk, hfrom.sort⟩

theorem heading_of_mem_shown {log : Logger} {deps : Option Dependencies} {ss : List Statement}
    (hgram : ∀ s ∈ ss, s.tree.Grammatical) {k : Category × List String} {m : Statement}
    (hm : m ∈ shown log deps ss k) : m.heading deps = k := by
  obtain ⟨s, -, hk, hfrom⟩ := comesFrom_of_mem_shown hgram hm
  rw [heading_eq_of_mergeKey hfrom.key, hk]

/-- Organized declarations, up to what is not printed, are organized to themselves. -/
theorem render_organize_of_plain {log : Logger} {deps : Option Dependencies}
    {ss ts : List Statement} (hgram : ∀ s ∈ ss, s.tree.Grammatical) (hends : Unended ss)
    (hplain : ts.map Statement.plain =
      ((organize log deps ss).value.flatMap Group.statements).map Statement.plain) :
    render (organize log deps ts).value = render (organize log deps ss).value := by
  rw [value_organize, List.flatMap_map] at hplain
  have hmem : ∀ k ∈ headings deps ss, ∀ m ∈ shown log deps ss k, m.heading deps = k :=
    fun k _ m hm => heading_of_mem_shown hgram hm
  have hsection : ∀ k ∈ headings deps ss,
      (ts.filter fun s => s.heading deps == k).map Statement.plain =
        (shown log deps ss k).map Statement.plain := by
    intro k hk
    have hheading : ∀ s : Statement, (s.plain.heading deps == k) = (s.heading deps == k) :=
      fun s => congrArg (· == k) (s.heading_plain deps)
    rw [← filter_map_plain hheading, hplain, filter_map_plain hheading]
    exact congrArg (List.map Statement.plain)
      (filter_flatMap_of_nodup (nodup_headings deps ss) hmem hk)
  have hsections : headings deps ts = headings deps ss := by
    apply headings_eq
    intro k
    constructor
    · rintro ⟨t, ht, rfl⟩
      have ht' := List.mem_map_of_mem (f := Statement.plain) ht
      rw [hplain] at ht'
      obtain ⟨m, hm, hmt⟩ := List.mem_map.1 ht'
      obtain ⟨k, hk, hm⟩ := List.mem_flatMap.1 hm
      rw [← mem_headings, ← t.heading_plain deps, ← hmt, m.heading_plain deps, hmem k hk m hm]
      exact hk
    · rintro ⟨s, hs, rfl⟩
      have hs' : s ∈ ss.filter fun t => t.heading deps == s.heading deps :=
        List.mem_filter.2 ⟨hs, beq_self_eq_true _⟩
      obtain ⟨m, hm, -⟩ := exists_mem_merge (fun t ht => hgram t (List.mem_filter.1 ht).1) log hs'
      have hm' : Statement.plain { m with tree := m.tree.sort } ∈
          (shown log deps ss (s.heading deps)).map Statement.plain :=
        List.mem_map_of_mem (mem_sort.2 ⟨m, hm, rfl⟩)
      rw [← hsection _ (mem_headings.2 ⟨s, hs, rfl⟩)] at hm'
      obtain ⟨t, ht, -⟩ := List.mem_map.1 hm'
      exact ⟨t, (List.mem_filter.1 ht).1, beq_iff_eq.1 (List.mem_filter.1 ht).2⟩
  apply render_organize_eq hsections
  intro k hk
  rw [hsections] at hk
  have hgram' : ∀ s ∈ ts.filter fun s => s.heading deps == k, s.tree.Grammatical := by
    intro s hs
    have hs' := List.mem_map_of_mem (f := Statement.plain) hs
    rw [hsection k hk] at hs'
    obtain ⟨m, hm, hms⟩ := List.mem_map.1 hs'
    obtain ⟨t, _, _, hfrom⟩ := comesFrom_of_mem_shown hgram hm
    exact grammatical_of_plain hms.symm hfrom.written
  have hsort : Statement.sort (shown log deps ss k) = shown log deps ss k := Statement.sort_sort _
  rw [← hsort]
  apply map_plain_sort_merge hgram'
  · intro s hs t ht
    have hs := congrArg Prod.snd (beq_iff_eq.1 (List.mem_filter.1 hs).2)
    have ht := congrArg Prod.snd (beq_iff_eq.1 (List.mem_filter.1 ht).2)
    exact hs.trans ht.symm
  · intro key
    have hkey : ∀ s : Statement, (s.plain.mergeKey == key) = (s.mergeKey == key) :=
      fun s => congrArg (· == key) s.mergeKey_plain
    have hpart : ∀ s ∈ ss.filter fun s => s.heading deps == k, s.tree.Grammatical :=
      fun s hs => hgram s (List.mem_filter.1 hs).1
    obtain ⟨hfixed, hfew⟩ := fixed_filter_sort_merge hpart
      (fun s hs => hends s (List.mem_filter.1 hs).1) log key
    apply (bucket_filter hgram' key).map_plain_of_fixed _ hfixed hfew
    rw [← filter_map_plain hkey, hsection k hk, filter_map_plain hkey]
    rfl

/-- Organized text is a fixed point: its declarations, read back, are organized to the same text. -/
theorem render_organize_scan (log : Logger) (deps : Option Dependencies) (ss : List Statement)
    (htree : ∀ s ∈ ss, s.tree.Readable) (hself : ∀ s ∈ ss, s.tree.NoDoubleSelf)
    (hvis : ∀ s ∈ ss, Visible s.visibility)
    (hattr : ∀ s ∈ ss, ∀ a ∈ s.attributes, IsAttribute a) :
    let text := render (organize log deps ss).value
    let scanned := (Document.scan text.toList).value
    render (organize log deps scanned.statements).value = text := by
  intro text scanned
  have hprint : ∀ s ∈ ss, Printable s := fun s hs =>
    ⟨(htree s hs).grammatical, hvis s hs, hattr s hs⟩
  have hgram : ∀ s ∈ ss, s.tree.Grammatical := fun s hs => (hprint s hs).tree
  have hends : Unended ss := fun s hs i hi => (hself s hs).imports hi
  obtain ⟨ds, hsurvey, hshows⟩ := exists_survey_render hprint log deps
  have hsorted : ∀ s ∈ (organize log deps ss).value.flatMap Group.statements,
      s.tree.sort = s.tree := by
    intro s hs
    obtain ⟨g, hg, hs⟩ := List.mem_flatMap.1 hs
    exact (comesFrom_of_mem_organize hgram hg hs).2
  have hscanned : scanned.statements.map Statement.bare =
      ((organize log deps ss).value.flatMap Group.statements).map Statement.bare := by
    have hitems : scanned.statements = Document.statementsFrom 0 false (itemsOf ds) := by
      show (Document.survey (Text.lines text.toList)).statements = _
      rw [hsurvey]
      rfl
    rw [hitems]
    exact (statementsFrom_itemsOf hshows hsorted 0 false).1
  apply render_organize_of_plain hgram hends
  exact map_plain_of_bare hscanned

theorem render_organize_scan_sampleAttributed :
    (∀ s ∈ sampleAttributed, s.tree.Readable ∧ s.tree.NoDoubleSelf ∧ Visible s.visibility ∧
        ∀ a ∈ s.attributes, IsAttribute a) ∧
      let text := render (organize .organizer none sampleAttributed).value
      render (organize .organizer none (Document.scan text.toList).value.statements).value =
        text := by
  have h := printable_sampleAttributed
  have hself : ∀ s ∈ sampleAttributed, s.tree.NoDoubleSelf := by
    intro s hs
    obtain ⟨t, ht, rfl⟩ := List.mem_map.1 hs
    exact noDoubleSelf_sampleImports t ht
  exact ⟨fun s hs => ⟨(h s hs).1, hself s hs, (h s hs).2⟩,
    render_organize_scan .organizer none sampleAttributed (fun s hs => (h s hs).1) hself
      (fun s hs => (h s hs).2.1) fun s hs => (h s hs).2.2⟩

end Group

end TidyUse
