import TidyUse.Group
import TidyUse.Proofs.Printed

/-!
# Scanning rendered declarations

* `Statement.Carries` : what a survey finds in lines that hold printed declarations;
* `Statement.carries_paragraphs` : the same for groups of declarations with empty lines between
  them;
* `Group.lines_render` : rendered groups are such lines;
* `Group.scan_render` : scanning gives back the organized declarations.
-/

namespace TidyUse

open Text Document

namespace Statement

/-! ## Lines that hold printed declarations -/

def printedAll (ss : List Statement) : List Line := ss.flatMap printedLines

def itemsOf (ds : List (Nat × Declaration)) : List Item := ds.map fun d => .declaration d.1 d.2

/-- Below `above`, the lines `ls` between `ws` and `after` hold the declarations `ss`, and a survey
finds them as `ds`. -/
structure Carries (stage : Stage) (above : List Line) (ws : List Char) (ls : List Line)
    (after : List Char) (ss : List Statement) (ds : List (Nat × Declaration)) : Prop where
  passes : Passes stage above (fringe ws ls after) (itemsOf ds) (.body true)
  shows : List.Forall₂ (fun d s => Shows d.2 s) ds ss
  start : ∀ d ∈ ds.head?, d.2.footprint = ⟨above.length, ws.length⟩
  stop : ∀ d ∈ ds.getLast?, d.2.span.stop = (placed above ws ls).stop
  clear : Clear ((fringe ws ls after).reverse ++ above)

theorem printedLines_ne_nil (s : Statement) : s.printedLines ≠ [] :=
  List.append_ne_nil_of_right_ne_nil _ (lines_ne_nil _)

theorem printedAll_ne_nil {ss : List Statement} (h : ss ≠ []) : printedAll ss ≠ [] := by
  obtain ⟨s, ss, rfl⟩ := List.exists_cons_of_ne_nil h
  exact List.append_ne_nil_of_left_ne_nil s.printedLines_ne_nil _

theorem passes_gap {gap : List Line} (h : ∀ l ∈ gap, isBlank l = true) (stage : Stage)
    {above : List Line} (hc : Clear above) :
    Passes stage above gap [] stage ∧ Clear (gap.reverse ++ above) := by
  induction gap generalizing above with
  | nil => exact ⟨.nil, hc⟩
  | cons l gap ih =>
    have hl := h l List.mem_cons_self
    have hattr : isAttributeLine l = false := by
      rw [Bool.eq_false_iff, Ne, isAttributeLine_iff, trimStart_eq_nil_iff.2 hl]
      simp
    obtain ⟨hpass, hclear⟩ := ih (fun m hm => h m (List.mem_cons_of_mem _ hm)) (clear_cons hattr hc)
    refine ⟨(passes_blank hl : Passes stage above [l] [] stage).append hpass, ?_⟩
    rw [List.reverse_cons, List.append_assoc]
    exact hclear

/-- Lines that hold declarations, blank lines, and again lines that hold declarations. -/
theorem Carries.append {stage : Stage} {above : List Line} {ws after : List Char}
    {ls gap ms : List Line} {ss ss' : List Statement} {ds ds' : List (Nat × Declaration)}
    (h : Carries stage above ws ls [] ss ds) (hgap : ∀ l ∈ gap, isBlank l = true)
    (h' : Carries (.body true) (gap.reverse ++ ((fringe ws ls []).reverse ++ above)) [] ms after
      ss' ds') (hl : ls ≠ []) (hm : ms ≠ []) (hs : ss ≠ []) (hs' : ss' ≠ []) :
    Carries stage above ws (ls ++ (gap ++ ms)) after (ss ++ ss') (ds ++ ds') := by
  have hds : ds ≠ [] := by
    rintro rfl
    exact hs (List.forall₂_nil_left_iff.1 h.shows)
  have hds' : ds' ≠ [] := by
    rintro rfl
    exact hs' (List.forall₂_nil_left_iff.1 h'.shows)
  have hgm : gap ++ ms ≠ [] := List.append_ne_nil_of_right_ne_nil _ hm
  have hfringe : fringe ws (ls ++ (gap ++ ms)) after =
      fringe ws ls [] ++ (gap ++ fringe [] ms after) := by
    rw [fringe_append ws hl hgm]
    rcases eq_or_ne gap [] with rfl | hg
    · rfl
    · rw [fringe_append [] hg hm, fringe_plain]
  have hstop : (placed above ws (ls ++ (gap ++ ms))).stop =
      (placed (gap.reverse ++ ((fringe ws ls []).reverse ++ above)) [] ms).stop := by
    rw [stop_placed_append above ws hl hgm]
    rcases eq_or_ne gap [] with rfl | hg
    · rfl
    · rw [stop_placed_append _ [] hg hm, fringe_plain]
  refine ⟨?_, ?_, ?_, ?_, ?_⟩
  · rw [hfringe, itemsOf, List.map_append]
    exact h.passes.append ((passes_gap hgap _ h.clear).1.append h'.passes)
  · exact List.rel_append h.shows h'.shows
  · rw [List.head?_append_of_ne_nil _ hds]
    exact h.start
  · rw [List.getLast?_append_of_ne_nil _ hds', hstop]
    exact h'.stop
  · rw [hfringe]
    simp only [List.reverse_append, List.append_assoc]
    exact h'.clear

theorem Printable.carries {s : Statement} (h : Printable s) {ws after : List Char}
    (hws : isBlank ws = true) (hafter : isBlank after = true) (stage : Stage) {above : List Line}
    (hc : Clear above) : ∃ ds, Carries stage above ws s.printedLines after [s] ds := by
  obtain ⟨row, d, hpass, hshows, hplace, hclear⟩ := h.passes hws hafter stage hc
  refine ⟨[(row, d)], hpass, .cons hshows .nil, ?_, ?_, hclear⟩
  · rintro _ ⟨⟩
    rw [← start_placed above ws s.printedLines, ← hplace]
  · rintro _ ⟨⟩
    rw [← hplace]
    rfl

theorem carries_printedAll {ss : List Statement} (hne : ss ≠ []) (h : ∀ s ∈ ss, Printable s)
    {ws after : List Char} (hws : isBlank ws = true) (hafter : isBlank after = true)
    (stage : Stage) {above : List Line} (hc : Clear above) :
    ∃ ds, Carries stage above ws (printedAll ss) after ss ds := by
  induction ss generalizing ws stage above with
  | nil => exact absurd rfl hne
  | cons s ss ih =>
    have hs := h s List.mem_cons_self
    rcases eq_or_ne ss [] with rfl | hss
    · obtain ⟨ds, hds⟩ := hs.carries hws hafter stage hc
      rw [printedAll, List.flatMap_cons, List.flatMap_nil, List.append_nil]
      exact ⟨ds, hds⟩
    · obtain ⟨ds, hds⟩ := hs.carries hws (show isBlank [] = true from rfl) stage hc
      obtain ⟨ds', hds'⟩ := ih hss (fun t ht => h t (List.mem_cons_of_mem _ ht))
        (show isBlank [] = true from rfl) (.body true) hds.clear
      have hgap : ∀ l ∈ ([] : List Line), isBlank l = true := by simp
      exact ⟨ds ++ ds', hds.append hgap hds' s.printedLines_ne_nil (printedAll_ne_nil hss) (by simp)
        hss⟩

/-- Groups of declarations with empty lines between them. -/
theorem carries_paragraphs {gs : List (List Statement)} (hne : gs ≠ []) (hgs : ∀ ss ∈ gs, ss ≠ [])
    (h : ∀ ss ∈ gs, ∀ s ∈ ss, Printable s) {ws after : List Char} (hws : isBlank ws = true)
    (hafter : isBlank after = true) (stage : Stage) {above : List Line} (hc : Clear above) :
    ∃ ds, Carries stage above ws (paragraphs (gs.map printedAll)) after gs.flatten ds := by
  induction gs generalizing ws stage above with
  | nil => exact absurd rfl hne
  | cons ss gs ih =>
    have hss := hgs ss List.mem_cons_self
    have hprint := h ss List.mem_cons_self
    cases gs with
    | nil =>
      obtain ⟨ds, hds⟩ := carries_printedAll hss hprint hws hafter stage hc
      rw [List.map_singleton, paragraphs_singleton, List.flatten_singleton]
      exact ⟨ds, hds⟩
    | cons ts gs =>
      have hts := hgs ts (by simp)
      have hgap : ∀ l ∈ [([] : Line)], isBlank l = true := by simp [isBlank]
      obtain ⟨ds, hds⟩ := carries_printedAll hss hprint hws (show isBlank [] = true from rfl) stage hc
      obtain ⟨ds', hds'⟩ := ih (List.cons_ne_nil _ _) (fun t ht => hgs t (List.mem_cons_of_mem _ ht))
        (fun t ht => h t (List.mem_cons_of_mem _ ht)) (show isBlank [] = true from rfl) (.body true)
        (passes_gap hgap (.body true) hds.clear).2
      refine ⟨ds ++ ds', ?_⟩
      rw [List.map_cons, List.map_cons, paragraphs_cons_cons, ← List.map_cons]
      exact hds.append hgap hds' (printedAll_ne_nil hss)
        (paragraphs_ne_nil (printedAll_ne_nil hts) _) hss
        (List.append_ne_nil_of_left_ne_nil hts _)

/-! ## Scanning them -/

/-- A declaration that shows a sorted one is read as it. -/
theorem Shows.statement {d : Declaration} {s : Statement} (h : Shows d s)
    (hs : s.tree.sort = s.tree) (block : Nat) :
    ∃ t, d.statement? block = some t ∧ t.bare = s.bare ∧ t.block = some (block : Int) := by
  obtain ⟨tree, hread, hbare⟩ := h.reading
  rw [hs] at hbare
  refine ⟨⟨tree, s.visibility, d.attributes, some d.span, some block⟩, ?_, ?_, rfl⟩
  · rw [Declaration.statement?, hread]
    simp only [h.trailing]
    rfl
  · rw [bare, bare, hbare, h.attributes]

theorem statementsFrom_itemsOf {ds : List (Nat × Declaration)} {ss : List Statement}
    (h : List.Forall₂ (fun d s => Shows d.2 s) ds ss) (hs : ∀ s ∈ ss, s.tree.sort = s.tree)
    (block : Nat) (hasMembers : Bool) :
    (statementsFrom block hasMembers (itemsOf ds)).map bare = ss.map bare ∧
      ∀ t ∈ statementsFrom block hasMembers (itemsOf ds), t.block = some (block : Int) := by
  induction h generalizing hasMembers with
  | nil => exact ⟨rfl, by simp [itemsOf, statementsFrom]⟩
  | @cons d s ds ss hd _ ih =>
    obtain ⟨hmap, hblock⟩ := ih (fun t ht => hs t (List.mem_cons_of_mem _ ht)) true
    obtain ⟨t, ht, hbare, htblock⟩ := hd.statement (hs s List.mem_cons_self) block
    have hfrom : statementsFrom block hasMembers (itemsOf (d :: ds)) =
        t :: statementsFrom block true (itemsOf ds) := by
      rw [itemsOf, List.map_cons, statementsFrom, Item.organized?, if_pos hd.isStatement,
        Option.bind_some, ht]
      rfl
    rw [hfrom, List.map_cons, List.map_cons, hmap, hbare]
    exact ⟨rfl, by simpa using ⟨htblock, hblock⟩⟩

theorem kept?_itemsOf {ds : List (Nat × Declaration)} {ss : List Statement}
    (h : List.Forall₂ (fun d s => Shows d.2 s) ds ss) : (itemsOf ds).filterMap Item.kept? = [] := by
  induction h with
  | nil => rfl
  | @cons d s ds ss hd _ ih =>
    have hkept : (Item.declaration d.1 d.2).kept? = none := by
      rw [Item.kept?, Declaration.kept?, hd.trailing, hd.isStatement]
      rfl
    rw [itemsOf, List.map_cons, List.filterMap_cons_none hkept]
    exact ih

/-! ## Sorting what is sorted -/

theorem mem_sort {ss : List Statement} {s : Statement} :
    s ∈ sort ss ↔ ∃ m ∈ ss, s = { m with tree := m.tree.sort } := by
  rw [sort, List.mem_mergeSort, List.mem_map]
  exact exists_congr fun m => and_congr_right fun _ => eq_comm

/-- Sorting sorted declarations changes nothing. -/
theorem sort_sort (ss : List Statement) : sort (sort ss) = sort ss := by
  have hmap : (sort ss).map (fun s => { s with tree := s.tree.sort }) = sort ss := by
    refine (List.map_congr_left fun s hs => ?_).trans (List.map_id _)
    obtain ⟨m, -, rfl⟩ := mem_sort.1 hs
    simp
  rw [sort, hmap, sort]
  exact List.mergeSort_of_pairwise (List.pairwise_mergeSort le_trans le_total _)

end Statement

namespace Group

open Statement

/-! ## Groups as lines -/

theorem mem_of_mem_ofStatements {deps : Option Dependencies} {ss : List Statement} {g : Group}
    (hg : g ∈ ofStatements deps ss) {s : Statement} (hs : s ∈ g.statements) : s ∈ ss := by
  rcases List.mem_append.1 hg with hg | hg
  · obtain ⟨category, -, hg⟩ := List.mem_filterMap.1 hg
    dsimp only at hg
    split at hg
    · cases hg
    · cases hg
      exact (List.mem_filter.1 hs).1
  · obtain ⟨b, hb, rfl⟩ := List.mem_map.1 hg
    obtain ⟨-, hb⟩ := mem_of_mem_buckets (List.mem_mergeSort.1 hb)
    rw [hb] at hs
    exact (List.mem_filter.1 (List.mem_filter.1 hs).1).1

theorem mem_organize {log : Logger} {deps : Option Dependencies} {ss : List Statement} {g : Group} :
    g ∈ (organize log deps ss).value ↔ ∃ g' ∈ ofStatements deps ss,
      g = { g' with statements := Statement.sort (Statement.merge log g'.statements).value } := by
  rw [organize, Traced.value_flatMap, List.mem_flatMap]
  refine exists_congr fun g' => and_congr_right fun _ => ?_
  simp [tidy]

/-- An organized declaration comes from a given one, and is sorted. -/
theorem comesFrom_of_mem_organize {log : Logger} {deps : Option Dependencies}
    {ss : List Statement} (h : ∀ s ∈ ss, s.tree.Grammatical) {g : Group}
    (hg : g ∈ (organize log deps ss).value) {s : Statement} (hs : s ∈ g.statements) :
    (∃ t ∈ ss, ComesFrom s t) ∧ s.tree.sort = s.tree := by
  obtain ⟨g', hg', rfl⟩ := mem_organize.1 hg
  obtain ⟨m, hm, rfl⟩ := mem_sort.1 hs
  have hmem : ∀ t ∈ g'.statements, t ∈ ss := fun t ht => mem_of_mem_ofStatements hg' ht
  obtain ⟨t, ht, hfrom⟩ := comesFrom_of_mem_merge (fun t ht => h t (hmem t ht)) hm
  exact ⟨⟨t, hmem t ht, hfrom.sort⟩, UseTree.sort_sort _⟩

theorem printable_of_mem_organize {log : Logger} {deps : Option Dependencies}
    {ss : List Statement} (h : ∀ s ∈ ss, Printable s) {g : Group}
    (hg : g ∈ (organize log deps ss).value) {s : Statement} (hs : s ∈ g.statements) :
    Printable s := by
  obtain ⟨⟨t, ht, hfrom⟩, -⟩ := comesFrom_of_mem_organize (fun t ht => (h t ht).tree) hg hs
  have hprint := h t ht
  exact ⟨hfrom.written, hfrom.visibility ▸ hprint.visibility, hfrom.attributes ▸ hprint.attributes⟩

/-- The declarations of the groups that have any. -/
def parts (groups : List Group) : List (List Statement) :=
  (groups.filter fun g => !g.statements.isEmpty).map Group.statements

theorem ne_nil_of_mem_parts {groups : List Group} {ss : List Statement} (h : ss ∈ parts groups) :
    ss ≠ [] := by
  obtain ⟨g, hg, rfl⟩ := List.mem_map.1 h
  simpa using (List.mem_filter.1 hg).2

theorem flatten_parts (groups : List Group) :
    (parts groups).flatten = groups.flatMap Group.statements := by
  induction groups with
  | nil => rfl
  | cons g groups ih =>
    rw [List.flatMap_cons, ← ih, parts, List.filter_cons]
    split
    · rfl
    · rename_i hg
      have hnil : g.statements = [] := by simpa using hg
      rw [hnil]
      rfl

/-- Groups of sorted declarations as lines. -/
theorem toList_format {groups : List Group}
    (hsort : ∀ g ∈ groups, Statement.sort g.statements = g.statements) :
    (format groups).toList = unlines (paragraphs ((parts groups).map printedAll)) := by
  have hpart : ∀ g ∈ groups, ("\n".intercalate
      ((Statement.sort g.statements).map Statement.format)).toList =
        unlines (printedAll g.statements) := by
    intro g hg
    have hmap : (g.statements.map Statement.format).map String.toList =
        (g.statements.map printedLines).map unlines := by
      rw [List.map_map, List.map_map]
      exact List.map_congr_left fun s _ => s.toList_format
    rw [hsort g hg, String.toList_intercalate, hmap, printedAll, List.flatMap]
    refine unlines_flatten fun ls hls => ?_
    obtain ⟨s, -, rfl⟩ := List.mem_map.1 hls
    exact s.printedLines_ne_nil
  have hne : ∀ ls ∈ (parts groups).map printedAll, ls ≠ [] := by
    intro ls hls
    obtain ⟨ss, hss, rfl⟩ := List.mem_map.1 hls
    exact printedAll_ne_nil (ne_nil_of_mem_parts hss)
  rw [format, String.toList_intercalate, ← unlines_paragraphs hne, List.map_map, parts,
    List.map_map, List.map_map]
  refine congrArg (List.intercalate _) (List.map_congr_left fun g hg => ?_)
  exact hpart g (List.mem_filter.1 hg).1

/-- The declarations of some groups are sorted, and their attributes stand on lines of their own. -/
structure Settled (groups : List Group) : Prop where
  sorted : ∀ g ∈ groups, Statement.sort g.statements = g.statements
  attributes : ∀ g ∈ groups, ∀ s ∈ g.statements, ∀ a ∈ s.attributes, '\n' ∉ a.toList

theorem settled_organize {log : Logger} {deps : Option Dependencies} {ss : List Statement}
    (h : ∀ s ∈ ss, s.tree.Grammatical) (hattr : ∀ s ∈ ss, ∀ a ∈ s.attributes, '\n' ∉ a.toList) :
    Settled (organize log deps ss).value where
  sorted g hg := by
    obtain ⟨g', -, rfl⟩ := mem_organize.1 hg
    exact Statement.sort_sort _
  attributes g hg s hs := by
    obtain ⟨⟨t, ht, hfrom⟩, -⟩ := comesFrom_of_mem_organize h hg hs
    exact hfrom.attributes ▸ hattr t ht

def printedGroups (groups : List Group) : List Line := paragraphs ((parts groups).map printedAll)

theorem newline_not_mem_printedGroups {groups : List Group} (h : Settled groups) {l : Line}
    (hl : l ∈ printedGroups groups) : '\n' ∉ l := by
  rcases mem_paragraphs hl with rfl | ⟨ls, hls, hl⟩
  · simp
  · obtain ⟨ss, hss, rfl⟩ := List.mem_map.1 hls
    obtain ⟨g, hg, rfl⟩ := List.mem_map.1 hss
    obtain ⟨s, hs, hl⟩ := List.mem_flatMap.1 hl
    rcases List.mem_append.1 hl with hl | hl
    · obtain ⟨a, ha, rfl⟩ := List.mem_map.1 hl
      exact h.attributes g (List.mem_filter.1 hg).1 s hs a ha
    · exact newline_not_mem hl

theorem printedGroups_ne_nil {groups : List Group} (h : parts groups ≠ []) :
    printedGroups groups ≠ [] := by
  obtain ⟨ss, gs, hparts⟩ := List.exists_cons_of_ne_nil h
  have hss : ss ∈ parts groups := hparts ▸ List.mem_cons_self
  rw [printedGroups, hparts, List.map_cons]
  exact paragraphs_ne_nil (printedAll_ne_nil (ne_nil_of_mem_parts hss)) _

/-- The text of groups that are not all empty ends with `;`. -/
theorem format_ends {groups : List Group} (h : Settled groups) (hne : parts groups ≠ []) :
    ∃ z, (format groups).toList = z ++ [';'] := by
  have hstatement : ∀ s : Statement, ∃ z, unlines s.printedLines = z ++ [';'] := by
    intro s
    obtain ⟨z, hz⟩ := intercalate_ends ['\n'] (s.attributes.map String.toList)
      (s.visibilityWords.toList ++ ("use ".toList ++ (s.tree.sort.format "").toList)) ';'
    refine ⟨z, ?_⟩
    rw [← s.toList_format, Statement.format, String.toList_intercalate, ← hz, List.map_append]
    simp
  have hall : ∀ ss : List Statement, ss ≠ [] → ∃ z, unlines (printedAll ss) = z ++ [';'] := by
    intro ss hss
    obtain ⟨ts, s, rfl⟩ := (List.eq_nil_or_concat' ss).resolve_left hss
    obtain ⟨y, hy⟩ := hstatement s
    obtain ⟨z, hz⟩ := intercalate_ends ['\n'] ((ts.map printedLines).map unlines) y ';'
    have hlines : ∀ ls ∈ (ts ++ [s]).map printedLines, ls ≠ [] := by
      intro ls hls
      obtain ⟨t, -, rfl⟩ := List.mem_map.1 hls
      exact t.printedLines_ne_nil
    refine ⟨z, ?_⟩
    rw [printedAll, List.flatMap, ← unlines_flatten hlines, ← hz, ← hy]
    simp
  obtain ⟨gs, ss, hparts⟩ := (List.eq_nil_or_concat' (parts groups)).resolve_left hne
  have hmem : ∀ ts ∈ parts groups, ts ≠ [] := fun _ => ne_nil_of_mem_parts
  rw [hparts] at hmem
  obtain ⟨y, hy⟩ := hall ss (hmem ss (by simp))
  obtain ⟨z, hz⟩ := intercalate_ends ['\n', '\n'] ((gs.map printedAll).map unlines) y ';'
  have hlines : ∀ ls ∈ (gs ++ [ss]).map printedAll, ls ≠ [] := by
    intro ls hls
    obtain ⟨ts, hts, rfl⟩ := List.mem_map.1 hls
    exact printedAll_ne_nil (hmem ts hts)
  refine ⟨z, ?_⟩
  rw [toList_format h.sorted, hparts, ← unlines_paragraphs hlines, ← hz, ← hy]
  simp

theorem toList_render {groups : List Group} (h : Settled groups) (hne : parts groups ≠ []) :
    (render groups).toList = unlines (printedGroups groups) ++ ['\n'] := by
  obtain ⟨z, hz⟩ := format_ends h hne
  have hfull : (format groups).isEmpty = false := by
    rw [Bool.eq_false_iff, Ne, String.isEmpty_iff]
    intro hempty
    rw [hempty] at hz
    simp at hz
  rw [render]
  simp only [hfull, Bool.false_eq_true, if_false]
  rw [String.toList_append, toList_format h.sorted]
  rfl

/-- The lines of rendered groups. -/
theorem lines_render {groups : List Group} (h : Settled groups) :
    lines (render groups).toList = printedGroups groups ++ [[]] := by
  rcases eq_or_ne (parts groups) [] with hnil | hne
  · have htext := toList_format h.sorted
    rw [hnil] at htext
    have hempty : format groups = "" := String.toList_injective htext
    rw [render, hempty, printedGroups, hnil]
    rfl
  · have hunlines : unlines (printedGroups groups ++ [[]]) = unlines (printedGroups groups) ++ ['\n'] :=
      unlines_append (printedGroups_ne_nil hne) (List.cons_ne_nil _ _)
    rw [toList_render h hne, ← hunlines]
    refine lines_unlines (fun l hl => ?_)
      (List.append_ne_nil_of_left_ne_nil (printedGroups_ne_nil hne) _)
    rcases List.mem_append.1 hl with hl | hl
    · exact newline_not_mem_printedGroups h hl
    · rw [List.mem_singleton.1 hl]
      simp

/-- The survey of the text of organized declarations finds these, one by one. -/
theorem exists_survey_render {ss : List Statement} (hprint : ∀ s ∈ ss, Printable s) (log : Logger)
    (deps : Option Dependencies) :
    ∃ ds, survey (lines (render (organize log deps ss).value).toList) = ⟨itemsOf ds, .exhausted⟩ ∧
      List.Forall₂ (fun d s => Shows d.2 s) ds
        ((organize log deps ss).value.flatMap Group.statements) := by
  set groups := (organize log deps ss).value with hgroups
  have hsettled : Settled groups := settled_organize (fun s hs => (hprint s hs).tree)
    fun s hs a ha => ((hprint s hs).attributes a ha).line
  have hblank : ∀ (stage : Stage) above, stage.walk above [[]] = ⟨[], .exhausted⟩ := by
    intro stage above
    have hpass : Passes stage above [[]] [] stage := passes_blank rfl
    exact (hpass []).trans (Stage.walk_nil _ _)
  rw [lines_render hsettled, survey_eq_walk, ← flatten_parts, printedGroups]
  rcases eq_or_ne (parts groups) [] with hnil | hne
  · rw [hnil]
    exact ⟨[], hblank .preamble [], .nil⟩
  · have hpart : ∀ ts ∈ parts groups, ∀ s ∈ ts, Printable s := by
      intro ts hts s hs
      obtain ⟨g, hg, rfl⟩ := List.mem_map.1 hts
      exact printable_of_mem_organize hprint (List.mem_filter.1 hg).1 hs
    obtain ⟨ds, hds⟩ := carries_paragraphs hne (fun _ => ne_nil_of_mem_parts) hpart
      (show isBlank [] = true from rfl) (show isBlank [] = true from rfl) .preamble clear_nil
    have hwalk := hds.passes [[]]
    rw [fringe_plain, hblank, Survey.prepend, List.append_nil] at hwalk
    exact ⟨ds, hwalk, hds.shows⟩

/-- Scanning undoes rendering: it gives back the organized declarations in their order, all in one
block, and there is nothing else to keep. -/
theorem scan_render (log : Logger) (deps : Option Dependencies) (ss : List Statement)
    (htree : ∀ s ∈ ss, s.tree.Readable) (hvis : ∀ s ∈ ss, Visible s.visibility)
    (hattr : ∀ s ∈ ss, ∀ a ∈ s.attributes, IsAttribute a) :
    let groups := (organize log deps ss).value
    let scanned := (Document.scan (render groups).toList).value
    scanned.statements.map bare = (groups.flatMap Group.statements).map bare ∧
      scanned.preserved = [] ∧ ∀ s ∈ scanned.statements, s.block = some 0 := by
  intro groups scanned
  have hprint : ∀ s ∈ ss, Printable s := fun s hs =>
    ⟨(htree s hs).grammatical, hvis s hs, hattr s hs⟩
  have hgram : ∀ s ∈ ss, s.tree.Grammatical := fun s hs => (hprint s hs).tree
  obtain ⟨ds, hsurvey, hshows⟩ : ∃ ds, survey (lines (render groups).toList) =
      ⟨itemsOf ds, .exhausted⟩ ∧
      List.Forall₂ (fun d s => Shows d.2 s) ds (groups.flatMap Group.statements) :=
    exists_survey_render hprint log deps
  have hvalue : scanned = Scan.ofLines (lines (render groups).toList) := rfl
  rw [hvalue, Scan.ofLines]
  have hsorted : ∀ s ∈ groups.flatMap Group.statements, s.tree.sort = s.tree := by
    intro s hs
    obtain ⟨g, hg, hs⟩ := List.mem_flatMap.1 hs
    exact (comesFrom_of_mem_organize hgram hg hs).2
  obtain ⟨hbare, hblock⟩ := statementsFrom_itemsOf hshows hsorted 0 false
  simp only [hsurvey, Survey.statements, Survey.preserved, kept?_itemsOf hshows]
  exact ⟨hbare, rfl, hblock⟩

/-- The sample declarations behind `pub(crate)` and below two attributes. -/
def sampleAttributed : List Statement :=
  sampleImports.map fun s =>
    { s with visibility := some "pub(crate)", attributes := ["#[a]", "#[cfg(b)]"] }

theorem printable_sampleAttributed : ∀ s ∈ sampleAttributed,
    s.tree.Readable ∧ Visible s.visibility ∧ ∀ a ∈ s.attributes, IsAttribute a := by
  have hvis : Visible (some "pub(crate)") := .within (show Token.isSegmentWord "crate" = true by
    decide +kernel)
  have hattr : ∀ a ∈ ["#[a]", "#[cfg(b)]"], IsAttribute a := by
    intro a ha
    simp only [List.mem_cons, List.not_mem_nil, or_false] at ha
    rcases ha with rfl | rfl
    · exact ⟨by decide, by decide, ⟨"a]".toList, rfl⟩⟩
    · exact ⟨by decide, by decide, ⟨"cfg(b)]".toList, rfl⟩⟩
  intro s hs
  obtain ⟨t, ht, rfl⟩ := List.mem_map.1 hs
  exact ⟨readable_sampleImports t ht, hvis, hattr⟩

theorem scan_render_sampleAttributed :
    (∀ s ∈ sampleAttributed, s.tree.Readable ∧ Visible s.visibility ∧
        ∀ a ∈ s.attributes, IsAttribute a) ∧
      let groups := (organize .organizer none sampleAttributed).value
      (Document.scan (render groups).toList).value.statements.map bare =
        (groups.flatMap Group.statements).map bare := by
  have h := printable_sampleAttributed
  exact ⟨h, (scan_render .organizer none sampleAttributed (fun s hs => (h s hs).1)
    (fun s hs => (h s hs).2.1) fun s hs => (h s hs).2.2).1⟩

end Group

end TidyUse
