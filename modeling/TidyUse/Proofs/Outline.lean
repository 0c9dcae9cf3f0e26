import TidyUse.Proofs.Rendering

/-!
# What the text of organized declarations depends on

* `Statement.plain` : what is printed of a declaration; `Statement.format_plain`;
* `Statement.sort_eq_of_classes` : sorting forgets how declarations of different keys stood to each
  other;
* `Statement.heading`, `Group.headings` : the section of a declaration, and the sections of the
  output; `Group.ofStatements_eq`, `Group.headings_eq`;
* `Group.render_organize_eq` : the text is told by the sections and what is printed in each.
-/

namespace TidyUse

/-! ## What is printed -/

namespace UseTree

theorem formatLines_congr {indent : String} {f : UseTree → UseTree} {ts : List UseTree}
    (h : ∀ t ∈ ts, (f t).format indent = t.format indent) :
    formatLines indent (ts.map f) = formatLines indent ts := by
  induction ts with
  | nil => rfl
  | cons t ts ih =>
    rw [List.map_cons, formatLines, formatLines, h t List.mem_cons_self,
      ih fun u hu => h u (List.mem_cons_of_mem _ hu)]

theorem needsBraces_bare (ts : List UseTree) : needsBraces (ts.map bare) = needsBraces ts := by
  match ts with
  | [] => rfl
  | [t] => simp [needsBraces]
  | t :: u :: ts => rfl

/-- Places are not printed. -/
theorem format_bare (indent : String) (t : UseTree) : t.bare.format indent = t.format indent := by
  induction t generalizing indent with
  | glob s => rw [bare_glob, format, format]
  | node s cs ih =>
    rw [bare_node]
    cases cs with
    | nil =>
      rw [List.map_nil, format, format]
      rfl
    | cons c cs =>
      have hbraces := needsBraces_bare (c :: cs)
      have hlines : formatLines (indent ++ indentStep) ((c :: cs).map bare) =
          formatLines (indent ++ indentStep) (c :: cs) := formatLines_congr fun d hd => ih d hd _
      rw [List.map_cons] at hbraces hlines ⊢
      rw [format, format, hbraces, hlines, ih c List.mem_cons_self, Segment.bare_name]

theorem firstPath_bare (t : UseTree) : t.bare.firstPath = t.firstPath := by
  induction t with
  | glob s => rw [bare_glob, firstPath, firstPath, Segment.bare_name]
  | node s cs ih =>
    rw [bare_node]
    cases cs with
    | nil => rw [List.map_nil, firstPath, firstPath, Segment.bare_name]
    | cons c cs =>
      rw [List.map_cons, firstPath, firstPath, ih c List.mem_cons_self, Segment.bare_name]

theorem canonicalPath_bare (t : UseTree) : t.bare.canonicalPath = t.canonicalPath := by
  unfold canonicalPath
  rw [sort_bare, firstPath_bare]

theorem firstPath_eq_cons (t : UseTree) : ∃ p, t.firstPath = t.name :: p := by
  match t with
  | glob s => exact ⟨[], rfl⟩
  | node s [] => exact ⟨[], rfl⟩
  | node s (c :: cs) => exact ⟨c.firstPath, rfl⟩

theorem GrammaticalBelow.colon_not_mem {t : UseTree} (h : t.GrammaticalBelow) :
    ∀ n ∈ t.firstPath, ':' ∉ n.toList := by
  induction t with
  | glob s =>
    intro n hn
    cases h with
    | glob name _ =>
      rw [List.mem_singleton.1 hn, name]
      decide
  | node s cs ih =>
    have hname := Token.colon_not_mem_of_isSegmentWord h.name_isSegmentWord
    cases cs with
    | nil =>
      intro n hn
      rw [List.mem_singleton.1 hn]
      exact hname
    | cons c cs =>
      intro n hn
      rcases List.mem_cons.1 hn with rfl | hn
      · exact hname
      · exact ih c List.mem_cons_self (h.of_mem c List.mem_cons_self) n hn

/-- The root can be read off the canonical path. -/
theorem Grammatical.name_eq {t u : UseTree} (ht : t.Grammatical) (hu : u.Grammatical)
    (h : t.canonicalPath = u.canonicalPath) : t.name = u.name := by
  obtain ⟨p, hp⟩ := t.sort.firstPath_eq_cons
  obtain ⟨q, hq⟩ := u.sort.firstPath_eq_cons
  have hpath : t.sort.firstPath = u.sort.firstPath := by
    apply Target.joinPath_inj ht.written.sort.colon_not_mem hu.written.sort.colon_not_mem
    · rw [hp]
      exact List.cons_ne_nil _ _
    · rw [hq]
      exact List.cons_ne_nil _ _
    · exact h
  rw [hp, hq, name_sort, name_sort] at hpath
  exact (List.cons.inj hpath).1

end UseTree

namespace Statement

/-- What is printed of a declaration. An empty visibility is none. -/
def plain (s : Statement) : Statement where
  tree := s.tree.bare
  visibility := some s.visibilityText
  attributes := s.attributes

@[simp] theorem attributes_plain (s : Statement) : s.plain.attributes = s.attributes := rfl

@[simp] theorem visibilityText_plain (s : Statement) :
    s.plain.visibilityText = s.visibilityText := rfl

@[simp] theorem attributeKey_plain (s : Statement) : s.plain.attributeKey = s.attributeKey := rfl

@[simp] theorem root_plain (s : Statement) : s.plain.root = s.root := UseTree.name_bare s.tree

@[simp] theorem mergeKey_plain (s : Statement) : s.plain.mergeKey = s.mergeKey := by
  unfold mergeKey
  rw [root_plain, visibilityText_plain, attributeKey_plain]

theorem plain_eq_iff {s t : Statement} : s.plain = t.plain ↔ s.tree.bare = t.tree.bare ∧
    s.visibilityText = t.visibilityText ∧ s.attributes = t.attributes := by
  constructor
  · intro h
    obtain ⟨htree, hvis, hattr, -, -⟩ := Statement.mk.inj h
    exact ⟨htree, Option.some.inj hvis, hattr⟩
  · rintro ⟨htree, hvis, hattr⟩
    unfold plain
    rw [htree, hvis, hattr]

theorem map_plain_of_bare {ss ts : List Statement} (h : ss.map bare = ts.map bare) :
    ss.map plain = ts.map plain := by
  have hbare : plain ∘ bare = plain := by
    funext s
    exact plain_eq_iff.2 ⟨s.tree.bare_bare, rfl, rfl⟩
  rw [← hbare, ← List.map_map, h, List.map_map]

theorem filter_map_plain {p : Statement → Bool} (hp : ∀ s : Statement, p s.plain = p s)
    (ss : List Statement) : (ss.map plain).filter p = (ss.filter p).map plain := by
  rw [List.filter_map]
  congr 2
  funext s
  exact hp s

theorem visibilityWords_plain (s : Statement) : s.plain.visibilityWords = s.visibilityWords := by
  unfold visibilityWords plain visibilityText
  cases s.visibility <;> rfl

/-- A declaration is printed as what is printed of it. -/
theorem format_plain (s : Statement) : s.plain.format = s.format := by
  have htree : s.plain.tree.sort.format "" = s.tree.sort.format "" := by
    show s.tree.bare.sort.format "" = _
    rw [UseTree.sort_bare, UseTree.format_bare]
  unfold format
  rw [htree, visibilityWords_plain, attributes_plain]

@[simp] theorem sortKey_plain (s : Statement) : s.plain.sortKey = s.sortKey := by
  unfold sortKey
  rw [visibilityText_plain]
  exact congrArg (fun p => (p, s.visibilityText)) (UseTree.canonicalPath_bare s.tree)

theorem map_plain_sort (ss : List Statement) : (sort ss).map plain = sort (ss.map plain) := by
  unfold sort
  rw [List.map_mergeSort (s := le) fun s _ t _ => by unfold le; rw [sortKey_plain, sortKey_plain],
    List.map_map, List.map_map]
  congr 1
  apply List.map_congr_left
  intro s _
  show Statement.mk s.tree.sort.bare _ _ _ _ = Statement.mk s.tree.bare.sort _ _ _ _
  rw [UseTree.sort_bare]
  rfl

end Statement

/-! ## Sorting by keys -/

section Classes

variable {α κ : Type} [BEq κ] [LawfulBEq κ]

/-- Lists that agree on the members of each key agree on all that lies within one key. -/
theorem filter_eq_of_classes {key : α → κ} {l m : List α}
    (h : ∀ k, (l.filter fun a => key a == k) = m.filter fun a => key a == k) {p : α → Bool}
    (hp : ∀ a ∈ l, ∀ b ∈ l, p a = true → p b = true → key a = key b) :
    l.filter p = m.filter p := by
  have hmem : ∀ a ∈ m, a ∈ l := by
    intro a ha
    have hclass : a ∈ m.filter fun b => key b == key a := List.mem_filter.2 ⟨ha, beq_self_eq_true _⟩
    rw [← h] at hclass
    exact (List.mem_filter.1 hclass).1
  cases hl : l.filter p with
  | nil =>
    symm
    rw [List.filter_eq_nil_iff] at hl ⊢
    intro a ha
    exact hl a (hmem a ha)
  | cons a rest =>
    obtain ⟨ha, hpa⟩ := List.mem_filter.1 (hl ▸ List.mem_cons_self : a ∈ l.filter p)
    have hpart : ∀ n : List α, (∀ b ∈ n, b ∈ l) →
        n.filter p = (n.filter fun b => key b == key a).filter p := by
      intro n hn
      rw [List.filter_filter]
      apply List.filter_congr
      intro b hb
      cases hpb : p b with
      | false => rfl
      | true => rw [hp b (hn b hb) a ha hpb hpa, beq_self_eq_true, Bool.and_true]
    rw [← hl, hpart l fun b hb => hb, hpart m hmem, h]

/-- What different keys give, each its own, can be told apart again. -/
theorem filter_flatMap_of_nodup {β : Type} {key : β → κ} {f : κ → List β} {ks : List κ}
    (hks : ks.Nodup) (hf : ∀ k ∈ ks, ∀ b ∈ f k, key b = k) {k : κ} (hk : k ∈ ks) :
    ((ks.flatMap f).filter fun b => key b == k) = f k := by
  have hown : (f k).filter (fun b => key b == k) = f k := by
    apply List.filter_eq_self.2
    intro b hb
    rw [hf k hk b hb, beq_self_eq_true]
  have hother : ∀ is : List κ, (∀ i ∈ is, i ∈ ks ∧ i ≠ k) →
      (is.flatMap f).filter (fun b => key b == k) = [] := by
    intro is his
    apply List.filter_eq_nil_iff.2
    intro b hb
    obtain ⟨i, hi, hb⟩ := List.mem_flatMap.1 hb
    rw [hf i (his i hi).1 b hb, beq_iff_eq]
    exact (his i hi).2
  obtain ⟨front, back, rfl⟩ := List.append_of_mem hk
  obtain ⟨-, hback, hdisj⟩ := List.nodup_append.1 hks
  rw [List.flatMap_append, List.flatMap_cons, List.filter_append, List.filter_append, hown,
    hother front, hother back, List.nil_append, List.append_nil]
  · intro i hi
    refine ⟨List.mem_append_right _ (List.mem_cons_of_mem _ hi), ?_⟩
    rintro rfl
    exact (List.nodup_cons.1 hback).1 hi
  · intro i hi
    exact ⟨List.mem_append_left _ hi, hdisj i hi k List.mem_cons_self⟩

end Classes

namespace Statement

/-- In one section, declarations of one place in the order have one key. -/
theorem mergeKey_eq_of_sortKey {s t : Statement} (hs : s.tree.Grammatical)
    (ht : t.tree.Grammatical) (hattr : s.attributeKey = t.attributeKey)
    (h : s.sortKey = t.sortKey) : s.mergeKey = t.mergeKey := by
  obtain ⟨hpath, hvis⟩ := Prod.mk.inj h
  have hroot : s.root = t.root := hs.name_eq ht hpath
  unfold mergeKey
  rw [hroot, hvis, hattr]

theorem sortKey_sort (s : Statement) :
    sortKey { s with tree := s.tree.sort } = s.sortKey :=
  congrArg (fun p => (p, s.visibilityText)) (UseTree.canonicalPath_sort s.tree)

/-- Sorted declarations of one section are told by those of each key. -/
theorem sort_eq_of_classes {ss ts : List Statement} (hgram : ∀ s ∈ ss, s.tree.Grammatical)
    (hattr : ∀ s ∈ ss, ∀ t ∈ ss, s.attributeKey = t.attributeKey)
    (h : ∀ k, (ss.filter fun s => s.mergeKey == k) = ts.filter fun s => s.mergeKey == k) :
    sort ss = sort ts := by
  apply mergeSort_eq_of_classes le_trans le_total (List.pairwise_mergeSort le_trans le_total _)
  intro x
  rw [filter_sameRank_mergeSort le_trans le_total, List.filter_map, List.filter_map]
  congr 1
  apply filter_eq_of_classes h
  intro s hs t ht hxs hxt
  have hrank := (sortKey_eq_of_sameRank hxs).symm.trans (sortKey_eq_of_sameRank hxt)
  rw [sortKey_sort, sortKey_sort] at hrank
  exact mergeKey_eq_of_sortKey (hgram s hs) (hgram t ht) (hattr s hs t ht) hrank

/-! ## Sections -/

/-- The section of the output that a declaration belongs to. -/
def heading (deps : Option Dependencies) (s : Statement) : Category × List String :=
  (s.category deps, s.attributeKey)

theorem attributeKey_eq_nil {s : Statement} : s.attributeKey = [] ↔ s.attributes = [] := by
  rw [← List.length_eq_zero_iff, ← List.length_eq_zero_iff]
  simp [attributeKey]

theorem category_eq (deps : Option Dependencies) (s : Statement) :
    s.category deps =
      if s.attributeKey = [] then .ofOrigin (.ofRoot deps s.root) else .attributed := by
  unfold category
  simp only [attributeKey_eq_nil, List.isEmpty_iff]

theorem category_eq_attributed {deps : Option Dependencies} {s : Statement} :
    s.category deps = .attributed ↔ s.attributeKey ≠ [] := by
  rw [category_eq]
  split
  · rename_i h
    refine ⟨fun hc => ?_, fun hne => absurd h hne⟩
    cases ho : Origin.ofRoot deps s.root <;> rw [ho] at hc <;> cases hc
  · rename_i h
    exact ⟨fun _ => h, fun _ => rfl⟩

/-- A declaration of a section without attributes has none. -/
theorem heading_eq_plain {deps : Option Dependencies} {s : Statement} {c : Category}
    (hc : c ≠ .attributed) : s.heading deps = (c, []) ↔ s.category deps = c := by
  refine ⟨fun h => (Prod.mk.inj h).1, fun h => Prod.ext h ?_⟩
  by_contra hne
  exact hc (h ▸ category_eq_attributed.2 hne)

/-- Declarations that may be merged stand in one section. -/
theorem heading_eq_of_mergeKey {s t : Statement} (h : s.mergeKey = t.mergeKey)
    (deps : Option Dependencies) : s.heading deps = t.heading deps := by
  obtain ⟨hroot, hrest⟩ := Prod.mk.inj h
  obtain ⟨-, hattr⟩ := Prod.mk.inj hrest
  unfold heading
  rw [category_eq, category_eq, hroot, hattr]

@[simp] theorem heading_plain (deps : Option Dependencies) (s : Statement) :
    s.plain.heading deps = s.heading deps :=
  heading_eq_of_mergeKey s.mergeKey_plain deps

end Statement

namespace Group

open Statement

/-- The sections without attributes. -/
theorem ne_attributed {c : Category} (hc : c ∈ [Category.standard, .external, .internal]) :
    c ≠ .attributed := by
  rintro rfl
  exact absurd hc (by decide)

def heading (g : Group) : Category × List String := (g.category, g.attributes)

def headings (deps : Option Dependencies) (ss : List Statement) : List (Category × List String) :=
  (ofStatements deps ss).map heading

def under (deps : Option Dependencies) (ss : List Statement) (k : Category × List String) :
    Group where
  category := k.1
  statements := ss.filter fun s => s.heading deps == k
  attributes := k.2

theorem under_heading {deps : Option Dependencies} {ss : List Statement} {g : Group}
    (hg : g ∈ ofStatements deps ss) : under deps ss g.heading = g := by
  rcases List.mem_append.1 hg with hg | hg
  · obtain ⟨category, hcat, hg⟩ := List.mem_filterMap.1 hg
    dsimp only at hg
    split at hg
    · cases hg
    · cases hg
      have hfilter : (ss.filter fun s => s.heading deps == (category, [])) =
          ss.filter fun s => s.category deps == category := by
        apply List.filter_congr
        intro s _
        rw [Bool.eq_iff_iff, beq_iff_eq, beq_iff_eq]
        exact heading_eq_plain (ne_attributed hcat)
      unfold under heading
      rw [hfilter]
  · obtain ⟨b, hb, rfl⟩ := List.mem_map.1 hg
    obtain ⟨-, hb⟩ := mem_of_mem_buckets (List.mem_mergeSort.1 hb)
    unfold under heading
    rw [hb, List.filter_filter]
    congr 1
    apply List.filter_congr
    intro s _
    rw [Bool.eq_iff_iff, Bool.and_eq_true, beq_iff_eq, beq_iff_eq, beq_iff_eq]
    exact ⟨fun h => ⟨(Prod.mk.inj h).2, (Prod.mk.inj h).1⟩, fun h => Prod.ext h.2 h.1⟩

/-- The groups are those of the sections. -/
theorem ofStatements_eq (deps : Option Dependencies) (ss : List Statement) :
    ofStatements deps ss = (headings deps ss).map (under deps ss) := by
  unfold headings
  rw [List.map_map]
  symm
  refine (List.map_congr_left fun g hg => ?_).trans (List.map_id _)
  exact under_heading hg

def attributesLe (a b : List String) : Bool := !decide (b < a)

theorem attributesLe_iff {a b : List String} : attributesLe a b = true ↔ ¬b < a := by
  simp [attributesLe]

theorem attributesLe_trans (a b c : List String) (hab : attributesLe a b = true)
    (hbc : attributesLe b c = true) : attributesLe a c = true := by
  rw [attributesLe_iff, not_lt] at *
  exact hab.trans hbc

theorem attributesLe_total (a b : List String) : (attributesLe a b || attributesLe b a) = true := by
  rw [Bool.or_eq_true, attributesLe_iff, attributesLe_iff, not_lt, not_lt]
  exact le_total a b

theorem attributesLe_antisymm {a b : List String} (hab : attributesLe a b = true)
    (hba : attributesLe b a = true) : a = b := by
  rw [attributesLe_iff, not_lt] at *
  exact le_antisymm hab hba

def attributeKeys (deps : Option Dependencies) (ss : List Statement) : List (List String) :=
  (distinct ((ss.filter fun s => s.category deps == .attributed).map attributeKey)).mergeSort
    attributesLe

theorem map_heading_attributed (deps : Option Dependencies) (ss : List Statement) :
    (attributed deps ss).map heading = (attributeKeys deps ss).map fun k => (.attributed, k) := by
  have hsections : ∀ (f : List String → List Statement) (keys : List (List String)),
      ((keys.map fun k => (k, f k)).mergeSort fun a b => !decide (b.1 < a.1)) =
        (keys.mergeSort attributesLe).map fun k => (k, f k) := by
    intro f keys
    symm
    apply List.map_mergeSort
    intro a _ b _
    rfl
  unfold attributed attributeKeys buckets
  dsimp only
  rw [hsections, List.map_map, List.map_map]
  rfl

theorem map_heading_plain (deps : Option Dependencies) (ss : List Statement) :
    (plain deps ss).map heading =
      ([Category.standard, .external, .internal].filter fun c =>
        ss.any fun s => s.category deps == c).map fun c => (c, []) := by
  unfold plain
  generalize [Category.standard, .external, .internal] = cs
  induction cs with
  | nil => rfl
  | cons c cs ih =>
    have hany : (ss.any fun s => s.category deps == c) =
        !(ss.filter fun s => s.category deps == c).isEmpty := by
      rw [Bool.eq_iff_iff]
      simp
    rw [List.filterMap_cons, List.filter_cons, hany]
    dsimp only
    cases hempty : (ss.filter fun s => s.category deps == c).isEmpty with
    | true =>
      rw [if_pos rfl, if_neg (by simp)]
      exact ih
    | false =>
      rw [if_neg (by simp), if_pos (by rfl), List.map_cons, List.map_cons, ← ih]
      rfl

theorem headings_eq_append (deps : Option Dependencies) (ss : List Statement) :
    headings deps ss =
      (([Category.standard, .external, .internal].filter fun c =>
        ss.any fun s => s.category deps == c).map fun c => (c, [])) ++
      (attributeKeys deps ss).map fun k => (.attributed, k) := by
  unfold headings ofStatements
  rw [List.map_append, map_heading_plain, map_heading_attributed]

theorem mem_attributeKeys {deps : Option Dependencies} {ss : List Statement} {k : List String} :
    k ∈ attributeKeys deps ss ↔ ∃ s ∈ ss, s.heading deps = (.attributed, k) := by
  unfold attributeKeys
  rw [List.mem_mergeSort, mem_distinct, List.mem_map]
  constructor
  · rintro ⟨s, hs, rfl⟩
    obtain ⟨hs, hcat⟩ := List.mem_filter.1 hs
    exact ⟨s, hs, Prod.ext (beq_iff_eq.1 hcat) rfl⟩
  · rintro ⟨s, hs, hk⟩
    obtain ⟨hcat, hkey⟩ := Prod.mk.inj hk
    exact ⟨s, List.mem_filter.2 ⟨hs, beq_iff_eq.2 hcat⟩, hkey⟩

theorem nodup_attributeKeys (deps : Option Dependencies) (ss : List Statement) :
    (attributeKeys deps ss).Nodup :=
  (List.mergeSort_perm _ _).nodup_iff.2 (nodup_distinct _)

/-- A section is shown for the declarations in it. -/
theorem mem_headings {deps : Option Dependencies} {ss : List Statement}
    {k : Category × List String} : k ∈ headings deps ss ↔ ∃ s ∈ ss, s.heading deps = k := by
  rw [headings_eq_append, List.mem_append]
  constructor
  · rintro (hk | hk)
    · obtain ⟨c, hc, rfl⟩ := List.mem_map.1 hk
      obtain ⟨hc, hany⟩ := List.mem_filter.1 hc
      obtain ⟨s, hs, hcat⟩ := List.any_eq_true.1 hany
      exact ⟨s, hs, (heading_eq_plain (ne_attributed hc)).2 (beq_iff_eq.1 hcat)⟩
    · obtain ⟨key, hkey, rfl⟩ := List.mem_map.1 hk
      exact mem_attributeKeys.1 hkey
  · rintro ⟨s, hs, rfl⟩
    by_cases hattr : s.attributeKey = []
    · refine Or.inl (List.mem_map.2 ⟨s.category deps, List.mem_filter.2 ⟨?_, ?_⟩, ?_⟩)
      · have hne : s.category deps ≠ .attributed := fun h => category_eq_attributed.1 h hattr
        cases hcat : s.category deps <;> simp_all
      · exact List.any_eq_true.2 ⟨s, hs, beq_self_eq_true _⟩
      · exact Prod.ext rfl hattr.symm
    · have hcat : s.category deps = .attributed := category_eq_attributed.2 hattr
      refine Or.inr (List.mem_map.2 ⟨s.attributeKey, mem_attributeKeys.2 ⟨s, hs, ?_⟩, ?_⟩)
      · exact Prod.ext hcat rfl
      · exact Prod.ext hcat.symm rfl

theorem nodup_headings (deps : Option Dependencies) (ss : List Statement) :
    (headings deps ss).Nodup := by
  rw [headings_eq_append]
  apply List.Nodup.append
  · exact (List.Nodup.filter _ (by decide)).map fun c d h => (Prod.mk.inj h).1
  · exact (nodup_attributeKeys deps ss).map fun a b h => (Prod.mk.inj h).2
  · intro k hplain hattr
    obtain ⟨c, hc, rfl⟩ := List.mem_map.1 hplain
    obtain ⟨key, -, hkey⟩ := List.mem_map.1 hattr
    exact ne_attributed (List.mem_filter.1 hc).1 (Prod.mk.inj hkey).1.symm

/-- The sections are told by what declarations there are. -/
theorem headings_eq {deps : Option Dependencies} {ss ts : List Statement}
    (h : ∀ k, (∃ s ∈ ss, s.heading deps = k) ↔ ∃ t ∈ ts, t.heading deps = k) :
    headings deps ss = headings deps ts := by
  have hkeys : attributeKeys deps ss = attributeKeys deps ts := by
    have hperm : (attributeKeys deps ss).Perm (attributeKeys deps ts) := by
      apply (List.perm_ext_iff_of_nodup (nodup_attributeKeys _ _) (nodup_attributeKeys _ _)).2
      intro k
      rw [mem_attributeKeys, mem_attributeKeys, h]
    have hsorted : ∀ us, (attributeKeys deps us).Pairwise fun a b => attributesLe a b = true :=
      fun us => List.pairwise_mergeSort attributesLe_trans attributesLe_total _
    exact hperm.eq_of_pairwise (fun a b _ _ => attributesLe_antisymm) (hsorted ss) (hsorted ts)
  rw [headings_eq_append, headings_eq_append, hkeys]
  congr 2
  apply List.filter_congr
  intro c hc
  have hany : ∀ us : List Statement, ((us.any fun s => s.category deps == c) = true) ↔
      ∃ s ∈ us, s.heading deps = (c, []) := by
    intro us
    simp only [List.any_eq_true, beq_iff_eq, heading_eq_plain (ne_attributed hc)]
  rw [Bool.eq_iff_iff, hany, hany, h]

def shown (log : Logger) (deps : Option Dependencies) (ss : List Statement)
    (k : Category × List String) : List Statement :=
  Statement.sort (Statement.merge log (ss.filter fun s => s.heading deps == k)).value

theorem value_organize (log : Logger) (deps : Option Dependencies) (ss : List Statement) :
    (organize log deps ss).value =
      (headings deps ss).map fun k => ⟨k.1, shown log deps ss k, k.2⟩ := by
  unfold organize
  rw [Traced.value_flatMap, ofStatements_eq, List.flatMap_map]
  exact List.flatMap_pure_eq_map _ _

/-- Groups are told by what is printed of their declarations. -/
theorem format_eq_of_plain {gs hs : List Group}
    (h : gs.map (fun g => g.statements.map Statement.plain) =
      hs.map fun g => g.statements.map Statement.plain) : format gs = format hs := by
  have hformat : ∀ gs : List Group, format gs = "\n\n".intercalate
      (((gs.map fun g => g.statements.map Statement.plain).filter fun ps => !ps.isEmpty).map
        fun ps => "\n".intercalate ((Statement.sort ps).map Statement.format)) := by
    intro gs
    have hfilter : (gs.filter fun g => !g.statements.isEmpty) = gs.filter
        ((fun ps => !ps.isEmpty) ∘ fun g => g.statements.map Statement.plain) := by
      apply List.filter_congr
      intro g _
      simp
    unfold format
    rw [List.filter_map, List.map_map, ← hfilter]
    refine congrArg ("\n\n".intercalate ·) (List.map_congr_left fun g _ => ?_)
    show _ = "\n".intercalate ((Statement.sort (g.statements.map Statement.plain)).map _)
    rw [← map_plain_sort, List.map_map]
    congr 1
    apply List.map_congr_left
    intro s _
    exact s.format_plain.symm
  rw [hformat, hformat, h]

/-- The text is told by the sections and what is printed in each. -/
theorem render_organize_eq {log : Logger} {deps : Option Dependencies} {ss ts : List Statement}
    (hsections : headings deps ss = headings deps ts)
    (h : ∀ k ∈ headings deps ss, (shown log deps ss k).map Statement.plain =
      (shown log deps ts k).map Statement.plain) :
    render (organize log deps ss).value = render (organize log deps ts).value := by
  have hformat : format (organize log deps ss).value = format (organize log deps ts).value := by
    apply format_eq_of_plain
    rw [value_organize, value_organize, List.map_map, List.map_map, ← hsections]
    exact List.map_congr_left h
  unfold render
  rw [hformat]

end Group

namespace Statement

/-- Merged and sorted declarations of one section are told by what becomes of each key. -/
theorem map_plain_sort_merge {log : Logger} {ss ts : List Statement}
    (hgram : ∀ s ∈ ss, s.tree.Grammatical)
    (hattr : ∀ s ∈ ss, ∀ t ∈ ss, s.attributeKey = t.attributeKey)
    (h : ∀ k, (mergeBucket log (ss.filter fun s => s.mergeKey == k)).value.map plain =
      (ts.filter fun s => s.mergeKey == k).map plain) :
    (sort (merge log ss).value).map plain = (sort ts).map plain := by
  have hclass : ∀ (us : List Statement) k, ((us.map plain).filter fun s => s.mergeKey == k) =
      (us.filter fun s => s.mergeKey == k).map plain := fun us k =>
    filter_map_plain (fun s => congrArg (· == k) s.mergeKey_plain) us
  have hfrom : ∀ m ∈ (merge log ss).value.map plain, ∃ s ∈ ss,
      m.tree.Grammatical ∧ m.attributeKey = s.attributeKey := by
    intro m' hm'
    obtain ⟨m, hm, rfl⟩ := List.mem_map.1 hm'
    obtain ⟨s, hs, hcomes⟩ := comesFrom_of_mem_merge hgram hm
    exact ⟨s, hs, UseTree.grammatical_bare.2 hcomes.written, congrArg (·.2.2) hcomes.key⟩
  rw [map_plain_sort, map_plain_sort]
  apply sort_eq_of_classes
  · intro m hm
    obtain ⟨-, -, hwritten, -⟩ := hfrom m hm
    exact hwritten
  · intro m hm n hn
    obtain ⟨s, hs, -, hms⟩ := hfrom m hm
    obtain ⟨t, ht, -, hnt⟩ := hfrom n hn
    rw [hms, hnt, hattr s hs t ht]
  · intro k
    rw [hclass, hclass, filter_merge hgram, h]

end Statement

end TidyUse
