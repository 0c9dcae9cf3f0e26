import TidyUse.Organize
import TidyUse.Proofs.Rendering
import TidyUse.Proofs.Splicing

/-!
# The imports of a document as lines

* `headerSpans` : the kept text that goes above a block; `lookup_blockHeaders`;
* `sectionLines`, `regionLines` : the lines of a block, and of all blocks;
* `toList_renderRegion` : the rendered imports are these lines.
-/

namespace TidyUse

section Buckets

variable {α β κ : Type} [BEq κ] [LawfulBEq κ]

theorem lookup_buckets (key : α → κ) (xs : List α) (f : List α → β) (k : κ) :
    ((buckets key xs).map fun b => (b.1, f b.2)).lookup k =
      if k ∈ xs.map key then some (f (xs.filter fun x => key x == k)) else none := by
  have hall : ∀ ks : List κ, ((ks.map fun j => (j, xs.filter fun x => key x == j)).map fun b =>
      (b.1, f b.2)).lookup k = if k ∈ ks then some (f (xs.filter fun x => key x == k)) else none := by
    intro ks
    induction ks with
    | nil => simp
    | cons j ks ih =>
      rw [List.map_cons, List.map_cons, List.lookup_cons, ih]
      by_cases h : k = j
      · subst h
        simp
      · have hne : (k == j) = false := beq_eq_false_iff_ne.2 h
        simp [hne, h]
  have hkeys := hall (distinct (xs.map key))
  simp only [mem_distinct] at hkeys
  exact hkeys

end Buckets

/-! ## No declaration is left out -/

namespace Statement

theorem tidy_ne_nil (log : Logger) (s : Statement) : (tidy log s).value ≠ [] := by
  rw [tidy]
  cases unite s [] <;> simp

/-- What becomes of a bucket is not nothing. -/
theorem mergeBucket_ne_nil (log : Logger) {statements : List Statement} (h : statements ≠ []) :
    (mergeBucket log statements).value ≠ [] := by
  obtain ⟨first, others, rfl⟩ := List.exists_cons_of_ne_nil h
  cases hu : unite first others with
  | ok m =>
    rw [value_mergeBucket_of_ok hu]
    simp
  | error c =>
    rw [value_mergeBucket_of_error hu, List.flatMap_cons]
    exact List.append_ne_nil_of_left_ne_nil (tidy_ne_nil log first) _

theorem exists_mem_merge {statements : List Statement}
    (h : ∀ s ∈ statements, s.tree.Grammatical) (log : Logger) {s : Statement}
    (hs : s ∈ statements) : ∃ m ∈ (merge log statements).value, m.mergeKey = s.mergeKey := by
  have hmem : s ∈ statements.filter fun t => t.mergeKey == s.mergeKey :=
    List.mem_filter.2 ⟨hs, beq_iff_eq.2 rfl⟩
  have hne := mergeBucket_ne_nil log (List.ne_nil_of_mem hmem)
  rw [← filter_merge h] at hne
  obtain ⟨m, hm⟩ := List.exists_mem_of_ne_nil _ hne
  exact ⟨m, (List.mem_filter.1 hm).1, beq_iff_eq.1 (List.mem_filter.1 hm).2⟩

end Statement

namespace Group

open Statement Text

theorem exists_mem_ofStatements (deps : Option Dependencies) {ss : List Statement} {s : Statement}
    (hs : s ∈ ss) : ∃ g ∈ ofStatements deps ss, s ∈ g.statements := by
  have hfilter : s ∈ ss.filter fun t => t.category deps == s.category deps :=
    List.mem_filter.2 ⟨hs, beq_iff_eq.2 rfl⟩
  by_cases hcat : s.category deps = .attributed
  · rw [hcat] at hfilter
    have hbucket : (s.attributeKey, (ss.filter fun t => t.category deps == .attributed).filter
        fun t => t.attributeKey == s.attributeKey) ∈ buckets attributeKey
          (ss.filter fun t => t.category deps == .attributed) :=
      List.mem_map.2 ⟨_, mem_distinct.2 (List.mem_map_of_mem hfilter), rfl⟩
    refine ⟨_, List.mem_append_right _ (List.mem_map_of_mem (List.mem_mergeSort.2 hbucket)), ?_⟩
    exact List.mem_filter.2 ⟨hfilter, beq_iff_eq.2 rfl⟩
  · refine ⟨⟨s.category deps, _, []⟩, List.mem_append_left _
      (List.mem_filterMap.2 ⟨s.category deps, ?_, ?_⟩), hfilter⟩
    · cases hc : s.category deps with
      | attributed => exact absurd hc hcat
      | standard => simp
      | external => simp
      | internal => simp
    · dsimp only
      rw [if_neg]
      rw [List.isEmpty_iff]
      exact List.ne_nil_of_mem hfilter

/-- Every declaration has one of its key among the organized ones. -/
theorem exists_mem_organize {ss : List Statement} (h : ∀ s ∈ ss, s.tree.Grammatical)
    (log : Logger) (deps : Option Dependencies) {s : Statement} (hs : s ∈ ss) :
    ∃ g ∈ (organize log deps ss).value, ∃ m ∈ g.statements, m.mergeKey = s.mergeKey := by
  obtain ⟨g, hg, hsg⟩ := exists_mem_ofStatements deps hs
  have hgram : ∀ t ∈ g.statements, t.tree.Grammatical := fun t ht =>
    h t (mem_of_mem_ofStatements hg ht)
  obtain ⟨m, hm, hkey⟩ := exists_mem_merge hgram log hsg
  obtain ⟨t, -, hfrom⟩ := comesFrom_of_mem_merge hgram hm
  refine ⟨_, mem_organize.2 ⟨g, hg, rfl⟩, _, mem_sort.2 ⟨m, hm, rfl⟩, ?_⟩
  rw [hfrom.sort.key, ← hfrom.key, hkey]

theorem parts_organize_ne_nil {ss : List Statement} (h : ∀ s ∈ ss, s.tree.Grammatical)
    (log : Logger) (deps : Option Dependencies) (hne : ss ≠ []) :
    parts (organize log deps ss).value ≠ [] := by
  obtain ⟨s, hs⟩ := List.exists_mem_of_ne_nil _ hne
  obtain ⟨g, hg, m, hm, -⟩ := exists_mem_organize h log deps hs
  refine List.ne_nil_of_mem (List.mem_map_of_mem (List.mem_filter.2 ⟨hg, ?_⟩))
  simpa using List.ne_nil_of_mem hm

/-- The text of organized declarations without the line end behind it. -/
theorem dropLineEnds_render {groups : List Group} (h : Settled groups) (hne : parts groups ≠ []) :
    Document.dropLineEnds (render groups).toList = unlines (printedGroups groups) := by
  obtain ⟨z, hz⟩ := format_ends h hne
  have hdrop : dropEndWhile (· == '\n') ['\n'] = [] := by decide
  rw [toList_render h hne, Document.dropLineEnds, dropEndWhile_append_of_nil hdrop, printedGroups,
    ← toList_format h.sorted, hz, dropEndWhile_concat (by decide)]

end Group

namespace Document

open Text

/-! ## The text above a block -/

/-- The block of the first declaration behind some text. -/
def nextBlock (scan : Scan) (s : Span) : Option (Option Int) :=
  (scan.statements.find? fun d => d.span.any fun t => decide (s.start < t.start)).map
    Statement.block

/-- Text with a declaration behind it has a next block. -/
theorem exists_nextBlock {scan : Scan} {k : Span}
    (hnext : ∃ s ∈ scan.statements, ∃ t, s.span = some t ∧ k.start < t.start) :
    ∃ d ∈ scan.statements, nextBlock scan k = some d.block := by
  obtain ⟨s, hs, t, ht, hlt⟩ := hnext
  have hsome : (scan.statements.find? fun d => d.span.any fun t =>
      decide (k.start < t.start)).isSome = true := by
    rw [List.find?_isSome]
    exact ⟨s, hs, by rw [ht]; simpa using hlt⟩
  obtain ⟨d, hd⟩ := Option.isSome_iff_exists.1 hsome
  exact ⟨d, List.mem_of_find?_eq_some hd, by rw [nextBlock, hd, Option.map_some]⟩

/-- The kept text that goes above a block. -/
def headerSpans (scan : Scan) (block : Option Int) : List Span :=
  (scan.preserved.filter fun s => scan.region.any fun r => r.contains s).filter fun s =>
    nextBlock scan s == some block

theorem lookup_blockHeaders (text : List Char) (scan : Scan) (block : Option Int) :
    ((blockHeaders text scan).lookup block).getD [] =
      (headerSpans scan block).map fun s => String.ofList (excerpt text s) := by
  have hheaded : ∀ ss : List Span, ((ss.filterMap fun s =>
      (scan.statements.find? fun d => d.span.any fun t => decide (s.start < t.start)).map fun d =>
        (d.block, String.ofList (excerpt text s))).filter fun p => p.1 == block).map Prod.snd =
      (ss.filter fun s => nextBlock scan s == some block).map fun s =>
        String.ofList (excerpt text s) := by
    intro ss
    induction ss with
    | nil => rfl
    | cons s ss ih =>
      rw [List.filterMap_cons, List.filter_cons, nextBlock]
      cases scan.statements.find? fun d => d.span.any fun t => decide (s.start < t.start) with
      | none => exact ih
      | some d =>
        simp only [Option.map_some]
        rw [List.filter_cons]
        by_cases hd : d.block = block
        · simp [hd, ih]
        · simp [hd, ih]
  rw [blockHeaders, lookup_buckets, headerSpans, ← hheaded]
  split
  · rfl
  · rename_i hkey
    rw [Option.getD_none, eq_comm, List.map_eq_nil_iff, List.filter_eq_nil_iff]
    intro p hp hblock
    exact hkey (List.mem_map.2 ⟨p, hp, beq_iff_eq.1 hblock⟩)

/-! ## Blocks as lines -/

def Scan.members (scan : Scan) (block : Option Int) : List Statement :=
  scan.statements.filter fun s => s.block == block

/-- The lines of one block below the text kept above it. -/
def sectionLines (deps : Option Dependencies) (text : List Char) (scan : Scan)
    (block : Option Int) : List Line :=
  ((headerSpans scan block).flatMap fun s => lines (excerpt text s)) ++
    Group.printedGroups (Group.organize .organizer deps (scan.members block)).value

/-- The lines of all blocks, with empty lines between them. -/
def regionLines (deps : Option Dependencies) (text : List Char) (scan : Scan) : List Line :=
  paragraphs ((distinct (scan.statements.map Statement.block)).map (sectionLines deps text scan))

/-- The declarations of a scan can be organized and printed. -/
structure Scan.Sound (scan : Scan) : Prop where
  written : ∀ s ∈ scan.statements, s.tree.Grammatical
  attributes : ∀ s ∈ scan.statements, ∀ a ∈ s.attributes, '\n' ∉ a.toList

section Render

variable {scan : Scan} (deps : Option Dependencies) (text : List Char)

theorem Scan.members_ne_nil {block : Option Int}
    (h : block ∈ distinct (scan.statements.map Statement.block)) : scan.members block ≠ [] := by
  obtain ⟨s, hs, rfl⟩ := List.mem_map.1 (mem_distinct.1 h)
  exact List.ne_nil_of_mem (List.mem_filter.2 ⟨hs, beq_iff_eq.2 rfl⟩)

theorem Scan.Sound.settled (h : scan.Sound) (block : Option Int) :
    Group.Settled (Group.organize .organizer deps (scan.members block)).value :=
  Group.settled_organize (fun s hs => h.written s (List.mem_filter.1 hs).1)
    fun s hs => h.attributes s (List.mem_filter.1 hs).1

theorem Scan.Sound.parts_ne_nil (h : scan.Sound) {block : Option Int}
    (hblock : block ∈ distinct (scan.statements.map Statement.block)) :
    Group.parts (Group.organize .organizer deps (scan.members block)).value ≠ [] :=
  Group.parts_organize_ne_nil (fun s hs => h.written s (List.mem_filter.1 hs).1) _ _
    (Scan.members_ne_nil hblock)

/-- A rendered block is its lines. -/
theorem renderBlock_eq (h : scan.Sound) {block : Option Int}
    (hblock : block ∈ distinct (scan.statements.map Statement.block)) :
    (renderBlock { deps } (((blockHeaders text scan).lookup block).getD [])
      (scan.members block)).value = [String.ofList (unlines (sectionLines deps text scan block))] := by
  have hsettled := h.settled deps block
  have hparts := h.parts_ne_nil deps hblock
  have hbody : (renderStatements { deps } (scan.members block)).value = String.ofList (unlines
      (Group.printedGroups (Group.organize .organizer deps (scan.members block)).value)) := by
    rw [← Group.dropLineEnds_render hsettled hparts]
    rfl
  have hfull : (renderStatements { deps } (scan.members block)).value.isEmpty = false := by
    obtain ⟨z, hz⟩ := Group.format_ends hsettled hparts
    rw [hbody, Bool.eq_false_iff, Ne, String.isEmpty_iff, Group.printedGroups,
      ← Group.toList_format hsettled.sorted, hz, ← String.toList_inj]
    simp
  rw [renderBlock, Traced.value_bind]
  simp only [hfull, Bool.false_eq_true, if_false, Traced.value_pure]
  rw [if_neg (by simp), lookup_blockHeaders, hbody]
  refine congrArg (fun s => [s]) (String.toList_injective ?_)
  have hlss : ∀ ls ∈ ((headerSpans scan block).map fun s => lines (excerpt text s)) ++
      [Group.printedGroups (Group.organize .organizer deps (scan.members block)).value],
      ls ≠ [] := by
    intro ls hls
    rcases List.mem_append.1 hls with hls | hls
    · obtain ⟨s, -, rfl⟩ := List.mem_map.1 hls
      exact lines_ne_nil _
    · rw [List.mem_singleton.1 hls]
      exact Group.printedGroups_ne_nil hparts
  have hflat := unlines_flatten hlss
  rw [List.flatten_append, List.flatten_singleton] at hflat
  rw [String.toList_intercalate, sectionLines, List.flatMap, ← hflat]
  simp [Function.comp_def, unlines_lines]

/-- The lines of a block end with a declaration. -/
theorem sectionLines_ends (h : scan.Sound) {block : Option Int}
    (hblock : block ∈ distinct (scan.statements.map Statement.block)) :
    ∃ z, unlines (sectionLines deps text scan block) = z ++ [';'] := by
  obtain ⟨z, hz⟩ := Group.format_ends (h.settled deps block) (h.parts_ne_nil deps hblock)
  rw [Group.toList_format (h.settled deps block).sorted] at hz
  rw [sectionLines]
  rcases eq_or_ne ((headerSpans scan block).flatMap fun s => lines (excerpt text s)) [] with
    hnil | hne
  · rw [hnil]
    exact ⟨z, hz⟩
  · refine ⟨unlines ((headerSpans scan block).flatMap fun s => lines (excerpt text s)) ++ '\n' :: z,
      ?_⟩
    rw [unlines_append hne (Group.printedGroups_ne_nil (h.parts_ne_nil deps hblock)),
      Group.printedGroups, hz, List.append_assoc, List.cons_append]

theorem newline_not_mem_sectionLines (h : scan.Sound) {block : Option Int} {l : Line}
    (hl : l ∈ sectionLines deps text scan block) : '\n' ∉ l := by
  rcases List.mem_append.1 hl with hl | hl
  · obtain ⟨s, -, hl⟩ := List.mem_flatMap.1 hl
    exact newline_not_mem hl
  · exact Group.newline_not_mem_printedGroups (h.settled deps block) hl

theorem sectionLines_ne_nil (h : scan.Sound) {block : Option Int}
    (hblock : block ∈ distinct (scan.statements.map Statement.block)) :
    sectionLines deps text scan block ≠ [] :=
  List.append_ne_nil_of_right_ne_nil _ (Group.printedGroups_ne_nil (h.parts_ne_nil deps hblock))

theorem newline_not_mem_regionLines (h : scan.Sound) {l : Line}
    (hl : l ∈ regionLines deps text scan) : '\n' ∉ l := by
  rcases mem_paragraphs hl with rfl | ⟨ls, hls, hl⟩
  · simp
  · obtain ⟨block, -, rfl⟩ := List.mem_map.1 hls
    exact newline_not_mem_sectionLines deps text h hl

/-- The rendered imports are their lines. -/
theorem toList_renderRegion (h : scan.Sound) :
    (renderRegion { deps } text scan scan.statements []).value.toList =
      unlines (regionLines deps text scan) := by
  have hsections : ∀ blocks : List (Option Int),
      (∀ b ∈ blocks, b ∈ distinct (scan.statements.map Statement.block)) →
      blocks.flatMap (fun block => (renderBlock { deps }
        (((blockHeaders text scan).lookup block).getD []) (scan.members block)).value) =
        blocks.map fun block => String.ofList (unlines (sectionLines deps text scan block)) := by
    intro blocks hblocks
    induction blocks with
    | nil => rfl
    | cons block blocks ih =>
      rw [List.flatMap_cons, renderBlock_eq deps text h (hblocks block List.mem_cons_self),
        ih fun b hb => hblocks b (List.mem_cons_of_mem _ hb)]
      rfl
  have hlss : ∀ ls ∈ (distinct (scan.statements.map Statement.block)).map
      (sectionLines deps text scan), ls ≠ [] := by
    intro ls hls
    obtain ⟨block, hblock, rfl⟩ := List.mem_map.1 hls
    exact sectionLines_ne_nil deps text h hblock
  have hvalue : (renderRegion { deps } text scan scan.statements []).value = "\n\n".intercalate
      ((distinct (scan.statements.map Statement.block)).flatMap fun block =>
        (renderBlock { deps } (((blockHeaders text scan).lookup block).getD [])
          (scan.members block)).value) := by
    rw [renderRegion]
    simp only [Traced.value_bind, Traced.value_flatMap, ite_self, List.append_nil]
    split <;> rfl
  rw [hvalue, hsections _ fun b hb => hb, String.toList_intercalate, regionLines,
    ← unlines_paragraphs hlss]
  simp [Function.comp_def]

/-- The rendered imports end with a declaration. -/
theorem regionLines_ends (h : scan.Sound) (hne : scan.statements ≠ []) :
    ∃ z, unlines (regionLines deps text scan) = z ++ [';'] := by
  have hlss : ∀ ls ∈ (distinct (scan.statements.map Statement.block)).map
      (sectionLines deps text scan), ls ≠ [] := by
    intro ls hls
    obtain ⟨block, hblock, rfl⟩ := List.mem_map.1 hls
    exact sectionLines_ne_nil deps text h hblock
  obtain ⟨s, hs⟩ := List.exists_mem_of_ne_nil _ hne
  have hblocks : distinct (scan.statements.map Statement.block) ≠ [] :=
    List.ne_nil_of_mem (mem_distinct.2 (List.mem_map_of_mem hs))
  obtain ⟨blocks, last, hlast⟩ := (List.eq_nil_or_concat' _).resolve_left hblocks
  have hmem : last ∈ distinct (scan.statements.map Statement.block) := by
    rw [hlast]
    simp
  obtain ⟨y, hy⟩ := sectionLines_ends deps text h hmem
  obtain ⟨z, hz⟩ := intercalate_ends ['\n', '\n']
    ((blocks.map (sectionLines deps text scan)).map unlines) y ';'
  refine ⟨z, ?_⟩
  rw [regionLines, ← unlines_paragraphs hlss, hlast, ← hz, ← hy]
  simp

end Render

end Document

end TidyUse
