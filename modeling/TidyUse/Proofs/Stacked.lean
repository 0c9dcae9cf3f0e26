import TidyUse.Proofs.Canonical
import TidyUse.Proofs.Orderly

/-!
# Sections below each other

* `Section` : the text above a block, and the declarations of the block;
* `Finds`, `Section.Good.exists_finds` : what a survey finds in the lines of a section;
* `Fit`, `exists_findsAll` : what it finds in sections below each other.
-/

namespace TidyUse.Document

open Text Statement

/-! ## Several kept texts -/

theorem Replay.append {stage stage' stage'' : Stage} {above ls ms : List Line} {ws : List Char}
    {items items' : List Item} {spans spans' : List Span} (hc : Clear above)
    (h : Replay stage above ws ls items stage' spans)
    (h' : Replay stage' ((fringe ws ls []).reverse ++ above) [] ms items' stage'' spans')
    (hl : ls ≠ []) (hm : ms ≠ []) :
    Replay stage above ws (ls ++ ms) (items ++ items') stage'' (spans ++ spans') := by
  have hfringe : fringe ws (ls ++ ms) [] = fringe ws ls [] ++ fringe [] ms [] :=
    fringe_append ws hl hm []
  refine ⟨?_, h'.found.trans h.found, fun hs => h'.stays (h.stays hs), ?_, ?_, fun hs => ?_⟩
  · rw [hfringe]
    exact h.passes.append h'.passes
  · rw [List.filterMap_append, h.organized, h'.organized]
    rfl
  · rw [hfringe, List.reverse_append, List.append_assoc]
    exact h'.clear
  · rw [← h.kept hs, ← h'.kept (h.stays hs)]
    refine keptOf_append ((fringe ws ls []).reverse ++ above).length (fun i hi k hk => ?_)
      fun i hi k hk => ?_
    · have hkept := (h.passes.between hc hi).kept k hk
      rw [List.length_append, List.length_reverse]
      omega
    · exact ((h'.passes.between h.clear hi).kept k hk).1

/-- The places of some texts, one below the other. -/
def placedAll (above : List Line) (ws : List Char) : List (List Line) → List Span
  | [] => []
  | ls :: lss => placed above ws ls :: placedAll ((fringe ws ls []).reverse ++ above) [] lss

theorem flatten_ne_nil_of_replays {lss : List (List Line)} (h : ∀ ls ∈ lss, Replays ls)
    (hne : lss ≠ []) : lss.flatten ≠ [] := by
  obtain ⟨ls, hls⟩ := List.exists_mem_of_ne_nil _ hne
  rw [Ne, List.flatten_eq_nil_iff]
  exact fun hnil => (h ls hls).1 (hnil ls hls)

/-- Kept texts are met again one below the other. -/
theorem replay_flatten {lss : List (List Line)} (hne : lss ≠ []) (h : ∀ ls ∈ lss, Replays ls)
    (stage : Stage) {above : List Line} (hc : Clear above) {ws : List Char}
    (hws : isBlank ws = true) :
    ∃ items stage', Replay stage above ws lss.flatten items stage' (placedAll above ws lss) := by
  induction lss generalizing stage above ws with
  | nil => exact absurd rfl hne
  | cons ls lss ih =>
    obtain ⟨hls, hreplays⟩ := h ls List.mem_cons_self
    obtain ⟨items, stage', hreplay⟩ := hreplays stage above ws hc hws
    rcases eq_or_ne lss [] with rfl | hlss
    · rw [List.flatten_singleton]
      exact ⟨items, stage', hreplay⟩
    · have htail : ∀ ms ∈ lss, Replays ms := fun ms hms => h ms (List.mem_cons_of_mem _ hms)
      obtain ⟨items', stage'', hreplay'⟩ := ih hlss htail stage' hreplay.clear
        (show isBlank [] = true from rfl)
      rw [List.flatten_cons]
      exact ⟨_, _, Replay.append hc hreplay hreplay' hls (flatten_ne_nil_of_replays htail hlss)⟩

theorem keeps_placedAll {lss : List (List Line)} (h : ∀ ls ∈ lss, ls ≠ []) {all above rest : List Line}
    {ws : List Char} (hall : all = above.reverse ++ (fringe ws lss.flatten [] ++ rest)) :
    List.Forall₂ (Keeps all) (placedAll above ws lss) lss := by
  induction lss generalizing above ws with
  | nil => exact .nil
  | cons ls lss ih =>
    have hls := h ls List.mem_cons_self
    have htail : ∀ ms ∈ lss, ms ≠ [] := fun ms hms => h ms (List.mem_cons_of_mem _ hms)
    have hsplit : all = above.reverse ++ (fringe ws ls [] ++ (fringe [] lss.flatten [] ++ rest)) := by
      rw [hall, List.flatten_cons]
      rcases eq_or_ne lss.flatten [] with hnil | hne
      · rw [hnil, List.append_nil, fringe_nil, List.nil_append]
      · rw [fringe_append ws hls hne, List.append_assoc]
    refine .cons ⟨hls, above, ws, [], _, rfl, hsplit⟩ (ih htail ?_)
    rw [hsplit]
    simp

/-! ## Sections -/

/-- A block of declarations, and the texts that are kept above it. -/
structure Section where
  headers : List (List Line)
  members : List Statement

namespace Section

variable (deps : Option Dependencies) (c : Section)

def organized : List Statement :=
  (Group.organize .organizer deps c.members).value.flatMap Group.statements

def body : List Line := Group.printedGroups (Group.organize .organizer deps c.members).value

def lines : List Line := c.headers.flatten ++ c.body deps

/-- A section can be printed and read again. -/
structure Good : Prop where
  replays : ∀ ls ∈ c.headers, Replays ls
  printable : ∀ s ∈ c.members, Printable s
  unended : Unended c.members
  nonempty : c.members ≠ []

end Section

namespace Section.Good

variable {c : Section} (h : c.Good) (deps : Option Dependencies)

include h

theorem parts_ne_nil : Group.parts (Group.organize .organizer deps c.members).value ≠ [] :=
  Group.parts_organize_ne_nil (fun s hs => (h.printable s hs).tree) _ _ h.nonempty

theorem body_ne_nil : c.body deps ≠ [] := Group.printedGroups_ne_nil (h.parts_ne_nil deps)

theorem organized_ne_nil : c.organized deps ≠ [] := by
  obtain ⟨ss, hss⟩ := List.exists_mem_of_ne_nil _ (h.parts_ne_nil deps)
  rw [Section.organized, ← Group.flatten_parts, Ne, List.flatten_eq_nil_iff]
  exact fun hnil => Group.ne_nil_of_mem_parts hss (hnil ss hss)

theorem settled : Group.Settled (Group.organize .organizer deps c.members).value :=
  Group.settled_organize (fun s hs => (h.printable s hs).tree)
    fun s hs a ha => ((h.printable s hs).attributes a ha).line

/-- A survey finds the printed declarations. -/
theorem exists_carries {ws after : List Char} (hws : isBlank ws = true)
    (hafter : isBlank after = true) (stage : Stage) {above : List Line} (hc : Clear above) :
    ∃ ds, Carries stage above ws (c.body deps) after (c.organized deps) ds := by
  have hpart : ∀ ts ∈ Group.parts (Group.organize .organizer deps c.members).value,
      ∀ s ∈ ts, Printable s := by
    intro ts hts s hs
    obtain ⟨g, hg, rfl⟩ := List.mem_map.1 hts
    exact Group.printable_of_mem_organize h.printable (List.mem_filter.1 hg).1 hs
  rw [Section.organized, ← Group.flatten_parts]
  exact carries_paragraphs (h.parts_ne_nil deps) (fun _ => Group.ne_nil_of_mem_parts) hpart hws hafter
    stage hc

end Section.Good

/-- What a survey finds in a section: items to keep, and declarations. -/
structure Found where
  kept : List Item
  spans : List Span
  ds : List (Nat × Declaration)

def Found.items (f : Found) : List Item := f.kept ++ itemsOf f.ds

/-- Below `above`, between `ws` and `after`, a survey finds a section. -/
structure Finds (deps : Option Dependencies) (stage : Stage) (above : List Line)
    (ws after : List Char) (c : Section) (f : Found) : Prop where
  passes : Passes stage above (fringe ws (c.lines deps) after) f.items (.body true)
  clear : Clear ((fringe ws (c.lines deps) after).reverse ++ above)
  organized : f.kept.filterMap Item.organized? = []
  spans : f.spans = placedAll above ws c.headers
  kept : stage ≠ .preamble → keptOf f.kept = f.spans
  shows : List.Forall₂ (fun d s => Shows d.2 s) f.ds (c.organized deps)
  start : c.headers = [] → f.kept = [] ∧ ∀ d ∈ f.ds.head?, d.2.footprint = ⟨above.length, ws.length⟩
  stop : ∀ d ∈ f.ds.getLast?, d.2.span.stop = (placed above ws (c.lines deps)).stop
  kept_rows : ∀ i ∈ f.kept, i.Between above.length (above.length + c.headers.flatten.length)
  ds_rows : ∀ i ∈ itemsOf f.ds, i.Between (above.length + c.headers.flatten.length)
    (above.length + (c.lines deps).length)

/-- A survey finds every section again. -/
theorem Section.Good.exists_finds {c : Section} (h : c.Good) (deps : Option Dependencies)
    (stage : Stage) {above : List Line} (hc : Clear above) {ws after : List Char}
    (hws : isBlank ws = true) (hafter : isBlank after = true) :
    ∃ f, Finds deps stage above ws after c f := by
  rcases eq_or_ne c.headers [] with hnil | hne
  · obtain ⟨ds, hds⟩ := h.exists_carries deps hws hafter stage hc
    have hlines : c.lines deps = c.body deps := by
      rw [Section.lines, hnil]
      rfl
    refine ⟨⟨[], [], ds⟩, ?_, ?_, rfl, ?_, fun _ => rfl, hds.shows, fun _ => ⟨rfl, hds.start⟩, ?_,
      by simp, ?_⟩
    · rw [hlines]
      exact hds.passes
    · rw [hlines]
      exact hds.clear
    · rw [hnil]
      rfl
    · rw [hlines]
      exact hds.stop
    · intro i hi
      have hbetween := hds.passes.between hc hi
      rw [length_fringe] at hbetween
      rw [hnil, hlines]
      exact hbetween
  · obtain ⟨items, stage', hreplay⟩ := replay_flatten hne h.replays stage hc hws
    obtain ⟨ds, hds⟩ := h.exists_carries deps (show isBlank [] = true from rfl) hafter
      stage' hreplay.clear
    have hflat := flatten_ne_nil_of_replays h.replays hne
    have hfringe : fringe ws (c.lines deps) after =
        fringe ws c.headers.flatten [] ++ fringe [] (c.body deps) after :=
      fringe_append ws hflat (h.body_ne_nil deps) after
    refine ⟨⟨items, placedAll above ws c.headers, ds⟩, ?_, ?_, hreplay.organized, rfl, hreplay.kept,
      hds.shows, fun hnil => absurd hnil hne, ?_, ?_, ?_⟩
    · rw [hfringe]
      exact hreplay.passes.append hds.passes
    · rw [hfringe, List.reverse_append, List.append_assoc]
      exact hds.clear
    · rw [Section.lines, stop_placed_append above ws hflat (h.body_ne_nil deps)]
      exact hds.stop
    · intro i hi
      have hbetween := hreplay.passes.between hc hi
      rwa [length_fringe] at hbetween
    · intro i hi
      have hbetween := hds.passes.between hreplay.clear hi
      rw [List.length_append, List.length_reverse, length_fringe, length_fringe] at hbetween
      rw [Section.lines, List.length_append]
      rw [Nat.add_comm c.headers.flatten.length, Nat.add_assoc] at hbetween
      exact hbetween

/-! ## Sections below each other -/

/-- What is found in a section, on the rows from `low` to `high`. -/
structure Found.Fits (deps : Option Dependencies) (all : List Line) (low high : Nat) (c : Section)
    (f : Found) : Prop where
  keeps : List.Forall₂ (Keeps all) f.spans c.headers
  kept : keptOf f.kept = f.spans
  organized : f.kept.filterMap Item.organized? = []
  shows : List.Forall₂ (fun d s => Shows d.2 s) f.ds (c.organized deps)
  rows : ∃ mid, low ≤ mid ∧ mid ≤ high ∧ (∀ i ∈ f.kept, i.Between low mid) ∧
    ∀ i ∈ itemsOf f.ds, i.Between mid high

theorem Finds.fits {deps : Option Dependencies} {stage : Stage} {above : List Line}
    {ws after : List Char} {c : Section} {f : Found} (h : Finds deps stage above ws after c f)
    (hgood : c.Good) (hstage : stage = .preamble → c.headers = []) {all rest : List Line}
    (hall : all = above.reverse ++ (fringe ws (c.lines deps) after ++ rest)) :
    f.Fits deps all above.length (above.length + (c.lines deps).length) c := by
  refine ⟨?_, ?_, h.organized, h.shows, _, Nat.le_add_right _ _, ?_, h.kept_rows, h.ds_rows⟩
  · rw [h.spans]
    have hne : ∀ ls ∈ c.headers, ls ≠ [] := fun ls hls => (hgood.replays ls hls).1
    rcases eq_or_ne c.headers [] with hnil | hheaders
    · rw [hnil]
      exact .nil
    · rw [Section.lines, fringe_append ws (flatten_ne_nil_of_replays hgood.replays hheaders) (hgood.body_ne_nil deps),
        List.append_assoc] at hall
      exact keeps_placedAll hne hall
  · by_cases hpre : stage = .preamble
    · rw [h.spans, hstage hpre, (h.start (hstage hpre)).1]
      rfl
    · exact h.kept hpre
  · rw [Section.lines, List.length_append]
    omega

/-- What is found in sections below each other, from the row `low` on. -/
inductive Fit (deps : Option Dependencies) (all : List Line) :
    Nat → List Section → List Found → Prop
  | nil {low : Nat} : Fit deps all low [] []
  | cons {row low high : Nat} {c : Section} {cs : List Section} {f : Found} {fs : List Found}
      (le : row ≤ low) (fits : f.Fits deps all low high c) (rest : Fit deps all high cs fs) :
      Fit deps all row (c :: cs) (f :: fs)

theorem Fit.mono {deps : Option Dependencies} {all : List Line} {row row' : Nat}
    {cs : List Section} {fs : List Found} (h : Fit deps all row' cs fs) (hle : row ≤ row') :
    Fit deps all row cs fs := by
  cases h with
  | nil => exact .nil
  | cons le fits rest => exact .cons (Nat.le_trans hle le) fits rest

theorem Found.Fits.ds_ne_nil {deps : Option Dependencies} {all : List Line} {low high : Nat}
    {c : Section} {f : Found} (h : f.Fits deps all low high c) (hgood : c.Good) : f.ds ≠ [] := by
  intro hnil
  have hshows := h.shows
  rw [hnil] at hshows
  exact hgood.organized_ne_nil deps (List.forall₂_nil_left_iff.1 hshows)

def sectionsLines (deps : Option Dependencies) (cs : List Section) : List Line :=
  paragraphs (cs.map (Section.lines deps))

theorem Section.Good.sectionsLines_ne_nil {c : Section} (h : c.Good) (deps : Option Dependencies)
    (cs : List Section) : sectionsLines deps (c :: cs) ≠ [] :=
  paragraphs_ne_nil (List.append_ne_nil_of_right_ne_nil _ (h.body_ne_nil deps)) _

/-- Below `above`, between `ws` and `after`, a survey finds sections. -/
structure FindsAll (deps : Option Dependencies) (all : List Line) (stage : Stage)
    (above : List Line) (ws after : List Char) (c : Section) (cs : List Section) (f : Found)
    (fs : List Found) : Prop where
  passes : Passes stage above (fringe ws (sectionsLines deps (c :: cs)) after)
    ((f :: fs).flatMap Found.items) (.body true)
  clear : Clear ((fringe ws (sectionsLines deps (c :: cs)) after).reverse ++ above)
  fit : Fit deps all above.length (c :: cs) (f :: fs)
  start : c.headers = [] → f.kept = [] ∧ ∀ d ∈ f.ds.head?, d.2.footprint = ⟨above.length, ws.length⟩
  stop : ∀ d ∈ ((f :: fs).flatMap Found.ds).getLast?,
    d.2.span.stop = (placed above ws (sectionsLines deps (c :: cs))).stop

/-- A survey finds sections again that stand below each other. -/
theorem exists_findsAll {c : Section} {cs : List Section} (hgood : ∀ d ∈ c :: cs, d.Good)
    (deps : Option Dependencies) {stage : Stage} (hstage : stage = .preamble → c.headers = [])
    {above : List Line} (hc : Clear above) {ws after : List Char} (hws : isBlank ws = true)
    (hafter : isBlank after = true) {all rest : List Line}
    (hall : all = above.reverse ++ (fringe ws (sectionsLines deps (c :: cs)) after ++ rest)) :
    ∃ f fs, FindsAll deps all stage above ws after c cs f fs := by
  have hgood₀ := hgood c List.mem_cons_self
  have hne : c.lines deps ≠ [] := List.append_ne_nil_of_right_ne_nil _ (hgood₀.body_ne_nil deps)
  induction cs generalizing c stage above ws with
  | nil =>
    have hlines : sectionsLines deps [c] = c.lines deps := paragraphs_singleton _
    obtain ⟨f, hf⟩ := hgood₀.exists_finds deps stage hc hws hafter
    rw [hlines] at hall
    have hfits := hf.fits hgood₀ hstage hall
    refine ⟨f, [], ?_, ?_, .cons (Nat.le_refl _) hfits .nil, hf.start, ?_⟩
    · rw [hlines, List.flatMap_cons, List.flatMap_nil, List.append_nil]
      exact hf.passes
    · rw [hlines]
      exact hf.clear
    · rw [hlines, List.flatMap_cons, List.flatMap_nil, List.append_nil]
      exact hf.stop
  | cons c' cs ih =>
    have hgood' := hgood c' (by simp)
    have hne' := hgood'.sectionsLines_ne_nil deps cs
    have hlines : sectionsLines deps (c :: c' :: cs) =
        c.lines deps ++ ([[]] ++ sectionsLines deps (c' :: cs)) := paragraphs_cons_cons _ _ _
    have hfringe : fringe ws (sectionsLines deps (c :: c' :: cs)) after =
        fringe ws (c.lines deps) [] ++ ([[]] ++ fringe [] (sectionsLines deps (c' :: cs)) after) := by
      rw [hlines, fringe_append ws hne (by simp), fringe_append [] (by simp) hne', fringe_plain]
    obtain ⟨f, hf⟩ := hgood₀.exists_finds deps stage hc hws (show isBlank [] = true from rfl)
    rw [hfringe, List.append_assoc] at hall
    have hfits := hf.fits hgood₀ hstage hall
    set above' := [] :: ((fringe ws (c.lines deps) []).reverse ++ above) with habove'
    have hc' : Clear above' := clear_cons rfl hf.clear
    have hbody : Stage.body true = .preamble → c'.headers = [] := Stage.noConfusion
    obtain ⟨f', fs, hfs⟩ := ih (fun d hd => hgood d (List.mem_cons_of_mem _ hd)) hbody hc'
      (show isBlank [] = true from rfl) (by rw [hall, habove']; simp) hgood'
      (List.append_ne_nil_of_right_ne_nil _ (hgood'.body_ne_nil deps))
    refine ⟨f, f' :: fs, ?_, ?_, ?_, hf.start, ?_⟩
    · rw [hfringe]
      have hblank : Passes (.body true) ((fringe ws (c.lines deps) []).reverse ++ above) [[]] []
        (.body true) := passes_blank rfl
      exact hf.passes.append (hblank.append hfs.passes)
    · rw [hfringe]
      simpa [habove'] using hfs.clear
    · refine .cons (Nat.le_refl _) hfits (hfs.fit.mono ?_)
      rw [habove', List.length_cons, List.length_append, List.length_reverse, length_fringe]
      omega
    · have hds : (f' :: fs).flatMap Found.ds ≠ [] := by
        cases hfs.fit with
        | cons _ fits _ => exact List.append_ne_nil_of_left_ne_nil (fits.ds_ne_nil hgood') _
      rw [List.flatMap_cons, List.getLast?_append_of_ne_nil _ hds, hlines,
        stop_placed_append above ws hne (by simp), stop_placed_append _ [] (by simp) hne',
        fringe_plain]
      exact hfs.stop

end TidyUse.Document
