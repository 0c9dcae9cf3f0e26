import TidyUse.Proofs.Arranged
import TidyUse.Proofs.InPlace

/-!
# Organizing twice

* `exists_closing` : between two blocks stands something that is not organized;
* `Layout.headerSpans_ne_nil` : so some text is kept above every block but the first;
* `sectionOf`, `Layout.good_sectionOf` : the blocks of a document in order are sections that can be
  read again;
* `Layout.exists_arranged` : a document in order is arranged once it is organized;
* `organize_organize` : so organizing it again changes nothing.
-/

namespace TidyUse.Document

open Text

/-! ## Between blocks -/

theorem organized?_eq_none {i : Item} {block : Nat}
    (h : (i.organized?.bind fun d => d.statement? block) = none) : i.organized? = none := by
  cases i with
  | comment span => rfl
  | declaration row d =>
    cases horg : (Item.declaration row d).organized? with
    | none => rfl
    | some d' =>
      rw [horg, Option.bind_some] at h
      rw [Item.organized?] at horg
      split at horg
      · rename_i hstatement
        cases horg
        obtain ⟨s, hs⟩ := d.exists_statement? hstatement block
        rw [hs] at h
        cases h
      · cases horg

/-- Between the declarations of two blocks stands something that is not organized. -/
theorem exists_closing {items : List Item} {block : Nat} {hasMembers : Bool}
    {pre post : List Statement} {s : Statement}
    (h : statementsFrom block hasMembers items = pre ++ s :: post) (hne : pre ≠ [])
    (hnew : ∀ t ∈ pre, t.block ≠ s.block) :
    ∃ items₁ i items₂ k, items = items₁ ++ i :: items₂ ∧ i.organized? = none ∧
      statementsFrom block hasMembers items₁ = pre ∧ statementsFrom k false items₂ = s :: post := by
  induction items generalizing block hasMembers pre with
  | nil => simp [statementsFrom] at h
  | cons item items ih =>
    obtain ⟨p, pre, rfl⟩ := List.exists_cons_of_ne_nil hne
    cases hitem : item.organized?.bind fun d => d.statement? block with
    | none =>
      rw [statementsFrom, hitem] at h
      obtain ⟨items₁, i, items₂, k, rfl, hi, hpre, hpost⟩ := ih h hne hnew
      refine ⟨item :: items₁, i, items₂, k, rfl, hi, ?_, hpost⟩
      rw [statementsFrom, hitem]
      exact hpre
    | some t =>
      obtain ⟨d, -, ht⟩ := Option.bind_eq_some_iff.1 hitem
      obtain ⟨-, -, -, -, hblock⟩ := Declaration.statement?_eq_some ht
      rw [statementsFrom, hitem, List.cons_append] at h
      obtain ⟨rfl, hrest⟩ := List.cons.inj h
      rcases eq_or_ne pre [] with rfl | hpre
      · cases items with
        | nil => simp [statementsFrom] at hrest
        | cons i items =>
          cases hi : i.organized?.bind fun d => d.statement? block with
          | some u =>
            -- the next declaration would belong to the same block
            obtain ⟨e, -, hu⟩ := Option.bind_eq_some_iff.1 hi
            obtain ⟨-, -, -, -, hblock'⟩ := Declaration.statement?_eq_some hu
            rw [statementsFrom, hi, List.nil_append] at hrest
            obtain ⟨rfl, -⟩ := List.cons.inj hrest
            exact absurd (hblock.trans hblock'.symm) (hnew t List.mem_cons_self)
          | none =>
            rw [statementsFrom, hi, List.nil_append] at hrest
            refine ⟨[item], i, items, _, rfl, organized?_eq_none hi, ?_, hrest⟩
            rw [statementsFrom, hitem]
            rfl
      · obtain ⟨items₁, i, items₂, k, rfl, hi, hpre', hpost⟩ := ih hrest hpre
          fun u hu => hnew u (List.mem_cons_of_mem _ hu)
        refine ⟨item :: items₁, i, items₂, k, rfl, hi, ?_, hpost⟩
        rw [statementsFrom, hitem]
        exact congrArg (t :: ·) hpre'

/-- A key that is not the first in a list has others before its first occurrence. -/
theorem exists_first_of_distinct {α : Type} [BEq α] [LawfulBEq α] {xs ks : List α} {k k' : α}
    (h : distinct xs = k :: ks) (hk : k' ∈ ks) :
    ∃ pre post, xs = pre ++ k' :: post ∧ pre ≠ [] ∧ k' ∉ pre := by
  have hmem : k' ∈ xs := mem_distinct.1 (h ▸ List.mem_cons_of_mem _ hk)
  obtain ⟨pre, post, rfl, hnot⟩ := List.eq_append_cons_of_mem hmem
  refine ⟨pre, post, rfl, ?_, hnot⟩
  rintro rfl
  have hnodup := nodup_distinct ([] ++ k' :: post)
  rw [List.nil_append, distinct, List.eraseDups_cons] at h
  obtain ⟨rfl, rfl⟩ := List.cons.inj h
  rw [List.nil_append, distinct, List.eraseDups_cons] at hnodup
  exact (List.nodup_cons.1 hnodup).1 hk

theorem Bounds.start_le {ss : List Sighting} {first last : Sighting} {ls : List Line}
    (hb : Bounds ss first last) (h : Layout ls ss) {g : Sighting} (hg : g ∈ ss)
    (horganized : g.isOrganized = true) : first.start ≤ g.start ∧ g.stop ≤ last.stop := by
  refine ⟨?_, ?_⟩
  · obtain ⟨a, b, rfl, hnone⟩ := hb.first_split
    rcases List.mem_append.1 hg with hg | hg
    · exact absurd horganized (List.any_eq_false.1 hnone g hg)
    · rcases List.mem_cons.1 hg with rfl | hg
      · exact Position.le_refl _
      · have hle := h.stop_le_start (before_of_mem_right hg)
        exact Position.le_trans (Sighting.start_le_stop _) hle
  · obtain ⟨a, b, rfl, hnone⟩ := hb.last_split
    rcases List.mem_append.1 hg with hg | hg
    · have hle := h.stop_le_start (before_of_mem_left hg)
      exact Position.le_trans hle (Sighting.start_le_stop _)
    · rcases List.mem_cons.1 hg with rfl | hg
      · exact Position.le_refl _
      · exact absurd horganized (List.any_eq_false.1 hnone g hg)

theorem Bounds.footprint_le {ss : List Sighting} {first last : Sighting}
    (hb : Bounds ss first last) : first.footprint ≤ first.start := by
  obtain ⟨above, before, cs, more, after, rfl, -⟩ :=
    Sighting.exists_of_isOrganized hb.first_organized
  exact footprint_le_start above before cs more after

/-- What is met and not organized is kept. -/
theorem Sighting.exists_kept_of_item {s : Sighting} {i : Item} (hi : s.item? = some i)
    (hnot : i.organized? = none) : ∃ k, s.kept? = some k := by
  cases s with
  | passed _ _ => cases hi
  | comment _ _ _ => exact ⟨_, rfl⟩
  | declaration above before first more after =>
    refine Sighting.exists_kept ?_
    rw [Sighting.isOrganized, hi, Option.bind_some, hnot]
    rfl

namespace Layout

variable {text : List Char} {ss : List Sighting} (h : Layout (lines text) ss)

include h

/-- What is kept of something stands behind the declarations before it and above those after it. -/
theorem exists_kept_between {e : Sighting} (he : e ∈ ss) {k : Span} (hk : e.kept? = some k)
    (hout : ∀ g ∈ ss, g.isOrganized = true → (survey (lines text)).Outside g.stop) :
    ∃ k' ∈ (survey (lines text)).preserved,
      (∀ g, Before ss g e → g.isOrganized = true → g.stop ≤ k'.start) ∧
        ∀ g, Before ss e g → g.isOrganized = true → k'.start < g.start ∧ k'.stop ≤ g.start := by
  obtain ⟨s, hs, k', hk', hkept, hcontains⟩ := h.exists_preserved he hk
  obtain ⟨hstart, hstop⟩ := contains_iff.1 hcontains
  have hne : ∀ g, g.isOrganized = true → s ≠ g := by
    rintro g hg rfl
    rw [Sighting.not_organized_of_kept hkept] at hg
    cases hg
  refine ⟨k', hk', fun g hbefore hg => ?_, fun g hbefore hg => ?_⟩
  · have hmem : g ∈ ss := hbefore.mem_left
    rcases (before_cases hs hmem).resolve_left (hne g hg) with hsg | hgs
    · -- the kept text would end before what it is kept of
      have hle := h.kept_stop_le_start hsg hkept
      have hlt := h.start_lt_kept_stop he hk
      have horder := h.stop_le_start hbefore
      have hself := Sighting.start_le_stop g
      simp only [Position.le_def, Position.lt_def] at *
      omega
    · exact h.stop_le_kept_start (Sighting.isDeclaration_of_isOrganized hg) (hout g hmem hg) hs hgs hkept
  · have hmem : g ∈ ss := hbefore.mem_right
    rcases (before_cases hs hmem).resolve_left (hne g hg) with hsg | hgs
    · exact ⟨h.kept_start_lt hsg hkept, h.kept_stop_le_start hsg hkept⟩
    · -- the kept text would start behind what it is kept of
      have hle := h.stop_le_kept_start (Sighting.isDeclaration_of_isOrganized hg) (hout g hmem hg) hs hgs hkept
      have hlt := h.kept_start_lt hbefore hk
      have hself := Sighting.start_le_stop g
      simp only [Position.le_def, Position.lt_def] at *
      omega

/-- Some text is kept above every block but the first. -/
theorem headerSpans_ne_nil {r : Span} (hr : (survey (lines text)).region = some r)
    (hout : (survey (lines text)).Outside r.stop) {pre post : List Statement} {s : Statement}
    (hs : (scan text).value.statements = pre ++ s :: post) (hne : pre ≠ [])
    (hnew : ∀ t ∈ pre, t.block ≠ s.block) : headerSpans (scan text).value s.block ≠ [] := by
  obtain ⟨first, last, hb, rfl⟩ := h.exists_bounds hr
  have hfrom : statementsFrom 0 false (ss.filterMap Sighting.item?) = pre ++ s :: post := by
    rw [← h.items]
    exact hs
  obtain ⟨items₁, i, items₂, n, hitems, hi, hpre, hpost⟩ := exists_closing hfrom hne hnew
  obtain ⟨ss₁, ss', hsplit, rfl, hss'⟩ := List.filterMap_eq_append_iff.1 hitems
  obtain ⟨a, e, ss₂, rfl, -, hei, rfl⟩ := List.filterMap_eq_cons_iff.1 hss'
  rw [← List.append_assoc] at hsplit
  have hleft : ∀ g ∈ ss₁, Before ss g e := fun g hg =>
    hsplit ▸ before_of_mem_left (List.mem_append_left a hg)
  have hright : ∀ g ∈ ss₂, Before ss e g := fun g hg => hsplit ▸ before_of_mem_right hg
  obtain ⟨k, hk⟩ := Sighting.exists_kept_of_item hei hi
  obtain ⟨k, hkept, habove, hbelow⟩ := h.exists_kept_between (hsplit ▸ by simp) hk
    fun g hg horganized => hout.mono (hb.start_le h hg horganized).2
  have hafter : ∃ g, Before ss e g ∧ g.isOrganized = true ∧ s.span = some ⟨g.start, g.stop⟩ := by
    obtain ⟨g, hg, hspan, horganized⟩ := exists_sighting_of_mem
      (show s ∈ statementsFrom n false (ss₂.filterMap Sighting.item?) by
        rw [hpost]
        exact List.mem_cons_self)
    exact ⟨g, hright g hg, horganized, hspan⟩
  have hprior : ∀ t ∈ pre, ∃ g, Before ss g e ∧ g.isOrganized = true ∧
      t.span = some ⟨g.start, g.stop⟩ := by
    intro t ht
    rw [← hpre] at ht
    obtain ⟨g, hg, hspan, horganized⟩ := exists_sighting_of_mem ht
    exact ⟨g, hleft g hg, horganized, hspan⟩
  obtain ⟨g, hg, horganized, hspan⟩ := hafter
  obtain ⟨hlt, hle⟩ := hbelow g hg horganized
  have hin : (⟨first.footprint, last.stop⟩ : Span).contains k = true := by
    obtain ⟨t, ht⟩ := List.exists_mem_of_ne_nil _ hne
    obtain ⟨f, hf, hforganized, -⟩ := hprior t ht
    refine contains_iff.2 ⟨?_, ?_⟩
    · have hfirst := (hb.start_le h hf.mem_left hforganized).1
      have hmid := Position.le_trans hfirst (Sighting.start_le_stop f)
      refine Position.le_trans hb.footprint_le (Position.le_trans hmid ?_)
      exact habove f hf hforganized
    · have hlast := (hb.start_le h hg.mem_right horganized).2
      exact Position.le_trans hle (Position.le_trans (Sighting.start_le_stop g) hlast)
  have hnext : nextBlock (scan text).value k = some s.block := by
    rw [nextBlock, List.find?_eq_some_iff_append.2 ⟨?_, pre, post, hs, ?_⟩, Option.map_some]
    · rw [hspan]
      exact decide_eq_true hlt
    · intro t ht
      obtain ⟨f, hf, hforganized, hfspan⟩ := hprior t ht
      have hstop := habove f hf hforganized
      have hself := Sighting.start_le_stop f
      rw [hfspan, Option.any_some, Bool.not_eq_true', decide_eq_false_iff_not]
      simp only [Position.le_def, Position.lt_def] at *
      omega
  refine List.ne_nil_of_mem (a := k) ?_
  refine List.mem_filter.2 ⟨List.mem_filter.2 ⟨hkept, ?_⟩, beq_iff_eq.2 hnext⟩
  change (survey (lines text)).region.any _ = true
  rw [hr]
  exact hin

end Layout

/-! ## The blocks as sections -/

theorem paragraphs_append (ls ms : List Line) (lss : List (List Line)) :
    paragraphs ((ls ++ ms) :: lss) = ls ++ paragraphs (ms :: lss) := by
  cases lss with
  | nil => rw [paragraphs_singleton, paragraphs_singleton]
  | cons ns lss => rw [paragraphs_cons_cons, paragraphs_cons_cons, List.append_assoc]

/-- The text above the first section, and the sections without it. -/
theorem sectionsLines_cons (deps : Option Dependencies) (c : Section) (cs : List Section) :
    sectionsLines deps (c :: cs) =
      c.headers.flatten ++ sectionsLines deps (⟨[], c.members⟩ :: cs) := by
  rw [sectionsLines, List.map_cons, Section.lines, paragraphs_append]
  rfl

/-- The text above the first section counts as a part of the head of the document. -/
theorem exists_arranged_of_sections {deps : Option Dependencies} {text : List Char}
    {head : List Line} {ws after : List Char} {below : List Line} {c : Section} {cs : List Section}
    (hlines : lines text = head ++ (fringe ws (sectionsLines deps (c :: cs)) after ++ below))
    (hgood : ∀ d ∈ c :: cs, d.Good) (hlater : ∀ d ∈ cs, d.headers ≠ [])
    (hblank : isBlank ws = true ∧ isBlank after = true)
    (hhead : ∃ items stage, Passes .preamble [] head items stage ∧
      items.filterMap Item.organized? = []) (hclear : Clear head.reverse)
    (htail : Ended below) (hfollows : below.head?.all isBlank = true) :
    ∃ above ws c cs, Arranged deps text above ws c cs after below := by
  rcases eq_or_ne c.headers [] with hnone | hsome
  · rw [← head.reverse_reverse] at hlines hhead
    exact ⟨head.reverse, ws, c, cs, hlines, hgood, hnone, hlater, hblank, hhead, hclear, htail,
      hfollows⟩
  · have hown := hgood c List.mem_cons_self
    have hbare : (⟨[], c.members⟩ : Section).Good :=
      ⟨by simp, hown.printable, hown.unended, hown.nonempty⟩
    have hgood' : ∀ d ∈ (⟨[], c.members⟩ : Section) :: cs, d.Good := by
      intro d hd
      rcases List.mem_cons.1 hd with rfl | hd
      · exact hbare
      · exact hgood d (List.mem_cons_of_mem _ hd)
    have hne := flatten_ne_nil_of_replays hown.replays hsome
    have hrest := hbare.sectionsLines_ne_nil deps cs
    obtain ⟨items, stage, hpass, hitems⟩ := hhead
    obtain ⟨items', stage', hreplay⟩ := replay_flatten hsome hown.replays stage hclear hblank.1
    set ls := fringe ws c.headers.flatten [] with hls
    have hsplit : lines text = (ls.reverse ++ head.reverse).reverse ++
        (fringe [] (sectionsLines deps (⟨[], c.members⟩ :: cs)) after ++ below) := by
      rw [hlines, sectionsLines_cons, fringe_append ws hne hrest]
      simp [hls]
    refine ⟨ls.reverse ++ head.reverse, [], ⟨[], c.members⟩, cs, hsplit, hgood', rfl, hlater,
      ⟨rfl, hblank.2⟩, ⟨items ++ items', stage', ?_, ?_⟩, hreplay.clear, htail, hfollows⟩
    · rw [List.reverse_append, List.reverse_reverse, List.reverse_reverse]
      refine hpass.append ?_
      rw [List.append_nil]
      exact hreplay.passes
    · rw [List.filterMap_append, hitems, hreplay.organized]
      rfl

/-- A block with the text that is kept above it. -/
def sectionOf (text : List Char) (block : Option Int) : Section where
  headers := (headerSpans (scan text).value block).map fun k => lines (excerpt text k)
  members := (scan text).value.members block

theorem regionLines_eq_sectionsLines (deps : Option Dependencies) (text : List Char) :
    regionLines deps text (scan text).value =
      sectionsLines deps ((scan text).value.blocks.map (sectionOf text)) := by
  rw [sectionsLines, List.map_map]
  rfl

namespace Layout

variable {text : List Char} {ss : List Sighting} (h : Layout (lines text) ss) {r : Span}
  (hr : (survey (lines text)).region = some r) (ho : Orderly text r)

include h hr ho

theorem good_sectionOf {block : Option Int} (hblock : block ∈ (scan text).value.blocks) :
    (sectionOf text block).Good where
  replays ls hls := by
    obtain ⟨k, hk, rfl⟩ := List.mem_map.1 hls
    obtain ⟨hk, -⟩ := List.mem_filter.1 hk
    obtain ⟨hk, hin⟩ := List.mem_filter.1 hk
    have hregion : (scan text).value.region = some r := hr
    rw [hregion, Option.any_some] at hin
    obtain ⟨s, last, hbefore, hsk, horganized⟩ := h.exists_before_last hr hk hin
    obtain ⟨_, _, hb, rfl⟩ := h.exists_bounds hr
    exact h.replays_of_before ho hbefore (hb.start_le h hbefore.mem_right horganized).2 hsk
  printable s hs := by
    have hmem := (List.mem_filter.1 hs).1
    exact ⟨(sound_scan text).written s hmem, (ho.imports s hmem).1, fun a ha =>
      isAttribute_of_scan hmem ha⟩
  unended s hs i hi := (ho.imports s (List.mem_filter.1 hs).1).2.imports hi
  nonempty := Scan.members_ne_nil hblock

/-- A document in order is arranged once it is organized. -/
theorem exists_arranged (formatter : Formatter) (deps : Option Dependencies) :
    ∃ once, (organize formatter { deps } none none text).run.value = .ok once ∧
      ∃ above ws c cs after below, Arranged deps once above ws c cs after below := by
  obtain ⟨first, last, hb, rfl⟩ := h.exists_bounds hr
  have hfirst := (hb.start_le h hb.mem_first hb.first_organized).2
  have hclosed := fun s => h.closed_upTo ho hb.mem_last (Position.le_refl _) (s := s)
  obtain ⟨above, x, y, below, ⟨hstart, hp⟩, hhead, hclear⟩ := h.exists_head ho hb hfirst
  obtain ⟨above', x', y', below', ⟨hstop, hq⟩, htail, hfollows⟩ := h.exists_tail ho hb
  have hne : (scan text).value.statements ≠ [] := by
    intro hnil
    have hspans : (scan text).value.statements.map Statement.span = _ :=
      map_span_statements (survey (lines text))
    rw [hnil, List.map_nil, eq_comm, List.map_eq_nil_iff, ← region_eq_none, hr] at hspans
    cases hspans
  obtain ⟨block, blocks, hblocks⟩ : ∃ b bs, (scan text).value.blocks = b :: bs := by
    obtain ⟨s, hs⟩ := List.exists_mem_of_ne_nil _ hne
    refine List.exists_cons_of_ne_nil (List.ne_nil_of_mem (a := s.block) ?_)
    exact mem_distinct.2 (List.mem_map_of_mem hs)
  obtain ⟨z, hz⟩ := regionLines_ends deps text (sound_scan text) hne
  have hlines := lines_replaceRegion hstart hstop (fun l hl =>
    newline_not_mem_regionLines deps text (sound_scan text) hl) hz (by decide)
    (scan text).value.trailingBlank
  rw [← hp, ← hq] at hlines
  refine ⟨_, value_organize deps formatter hr, ?_⟩
  set once := replaceRegion text ⟨first.footprint, last.stop⟩
    (unlines (regionLines deps text (scan text).value)) (scan text).value.trailingBlank
  rw [regionLines_eq_sectionsLines, hblocks, List.map_cons] at hlines
  have hgood : ∀ d ∈ sectionOf text block :: blocks.map (sectionOf text), d.Good := by
    intro d hd
    rw [← List.map_cons, ← hblocks] at hd
    obtain ⟨b, hmem, rfl⟩ := List.mem_map.1 hd
    exact h.good_sectionOf hr ho hmem
  have hlater : ∀ d ∈ blocks.map (sectionOf text), d.headers ≠ [] := by
    intro d hd
    obtain ⟨b, hmem, rfl⟩ := List.mem_map.1 hd
    obtain ⟨pre, post, hsplit, hpre, hnot⟩ := exists_first_of_distinct hblocks hmem
    obtain ⟨pre, rest, hstatements, rfl, hrest⟩ := List.map_eq_append_iff.1 hsplit
    obtain ⟨s, post, rfl, rfl, -⟩ := List.map_eq_cons_iff.1 hrest
    rw [sectionOf, Ne, List.map_eq_nil_iff]
    refine h.headerSpans_ne_nil hr (h.outside hb.mem_last hclosed) hstatements ?_ ?_
    · rintro rfl
      exact hpre rfl
    · rintro t ht heq
      exact hnot (heq ▸ List.mem_map_of_mem ht)
  obtain ⟨above, ws, c, cs, harranged⟩ := exists_arranged_of_sections hlines hgood hlater
    ⟨isBlank_headOf above x, isBlank_tailOf _ y' below'⟩ hhead hclear htail hfollows
  exact ⟨above, ws, c, cs, _, _, harranged⟩

end Layout

/-- Organizing a document in order twice is organizing it once. -/
theorem organize_organize (formatter : Formatter) (deps : Option Dependencies) {text : List Char}
    (ho : ∀ r, (scan text).value.region = some r → Orderly text r) :
    ∃ once, (organize formatter { deps } none none text).run.value = .ok once ∧
      (organize formatter { deps } none none once).run.value = .ok once := by
  cases hr : (scan text).value.region with
  | none =>
    have hsame := value_organize_of_none deps formatter hr
    exact ⟨text, hsame, hsame⟩
  | some r =>
    obtain ⟨ss, h⟩ := exists_layout (lines text)
    obtain ⟨once, honce, above, ws, c, cs, after, below, harranged⟩ :=
      h.exists_arranged hr (ho r hr) formatter deps
    exact ⟨once, honce, harranged.organize_eq formatter⟩

theorem noDoubleSelf_of_flat {t : UseTree} (h : ∀ c ∈ t.children, c.children = []) :
    t.NoDoubleSelf := by
  intro c hc
  cases c with
  | glob _ => exact .glob
  | node s cs =>
    have hnil : cs = [] := h _ hc
    rw [hnil]
    exact .node (by simp) (by simp)

/-- A declaration that is kept on the line of the first import, a comment and an attribute between
imports, and code behind the last of them. -/
def sampleOrderly : List Char := "use x/**/; use c;\n// n\n#[u]\nuse b;\nuse a; f()".toList

/-- The same document, organized. -/
def sampleTidy : List Char :=
  "use x/**/;\n\nuse c;\n\n// n\nuse a;\n\n#[u]\nuse b;\n\nf()".toList

theorem organize_organize_sampleOrderly :
    (∀ r, (scan sampleOrderly).value.region = some r → Orderly sampleOrderly r) ∧
      (organize .absent {} none none sampleOrderly).run.value = .ok sampleTidy ∧
      (organize .absent {} none none sampleTidy).run.value = .ok sampleTidy := by
  have hregion : (scan sampleOrderly).value.region = some ⟨⟨0, 11⟩, ⟨4, 6⟩⟩ := by decide +kernel
  have himports : ∀ s ∈ (scan sampleOrderly).value.statements,
      s.visibility = none ∧ ∀ c ∈ s.tree.children, c.children = [] := by decide +kernel
  have horderly : Orderly sampleOrderly ⟨⟨0, 11⟩, ⟨4, 6⟩⟩ := by
    refine ⟨forall_mem_of_all (by decide +kernel), ?_, by decide +kernel, by decide +kernel,
      fun s hs => ?_⟩
    · unfold Clear
      decide +kernel
    · obtain ⟨hvisibility, hflat⟩ := himports s hs
      rw [hvisibility]
      exact ⟨.hidden, noDoubleSelf_of_flat hflat⟩
  have hall : ∀ r, (scan sampleOrderly).value.region = some r → Orderly sampleOrderly r := by
    intro r hr
    rw [hregion] at hr
    exact Option.some.inj hr ▸ horderly
  have htidy : (organize .absent {} none none sampleOrderly).run.value = .ok sampleTidy := by
    decide +kernel
  obtain ⟨once, honce, htwice⟩ := organize_organize .absent none hall
  obtain rfl : sampleTidy = once := Except.ok.inj (htidy.symm.trans honce)
  exact ⟨hall, htidy, htwice⟩

/-- Code behind an import that looks like an attribute, and imports below it. -/
def sampleBehind : List Char := "use b; #[x] fn f() {}\nuse a;\nuse std::c;".toList

/-- The code is moved to a line of its own, where it is taken for an attribute of the next
declaration, so that the imports go on below it. -/
theorem organize_organize_ne_sampleBehind :
    ∃ once, (organize .absent {} none none sampleBehind).run.value = .ok once ∧
      (organize .absent {} none none once).run.value ≠ .ok once := by
  refine ⟨"use b;\n\n#[x] fn f() {}\nuse a;\nuse std::c;".toList, ?_, ?_⟩
  · decide +kernel
  · decide +kernel

end TidyUse.Document
