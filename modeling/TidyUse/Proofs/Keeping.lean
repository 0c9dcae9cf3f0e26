import TidyUse.Proofs.Layout
import TidyUse.Proofs.Outcome

/-!
# Kept text

* `Survey.Outside`, `Survey.Apart` : attributes, comments and declarations can be told apart;
* `Layout.le_footprint` : then declarations stand one behind the other, attributes included;
* `Layout.mem_preserved` : and a declaration that stays as it is is kept as a whole;
* `Output` : the lines of the organized document; `Layout.output`.
-/

namespace TidyUse.Document

open Text

/-- Where an item stands, attributes not included. -/
def Item.span : Item → Span
  | comment span => span
  | declaration _ d => d.span

def Survey.declarations (s : Survey) : List Declaration :=
  s.items.filterMap fun
    | .comment _ => none
    | .declaration _ d => some d

theorem Survey.mem_declarations {s : Survey} {row : Nat} {d : Declaration}
    (h : Item.declaration row d ∈ s.items) : d ∈ s.declarations :=
  List.mem_filterMap.2 ⟨_, h, rfl⟩

/-- No declaration takes attributes from inside of something that ends at `p` or before. -/
def Survey.Outside (s : Survey) (p : Position) : Prop :=
  ∀ d ∈ s.declarations, ∀ i ∈ s.items, i.span.stop ≤ p →
    d.footprint ≤ i.span.start ∨ i.span.stop ≤ d.footprint

theorem Survey.Outside.mono {s : Survey} {p q : Position} (h : s.Outside q) (hle : p ≤ q) :
    s.Outside p :=
  fun d hd i hi hstop => h d hd i hi (Position.le_trans hstop hle)

/-- Attributes, comments and declarations are told apart as they are meant: no declaration takes
attributes from inside of something else, no two that stay as they are share a line, and every
attribute in the region belongs to a declaration. -/
structure Survey.Apart (ls : List Line) (s : Survey) : Prop where
  below : ∀ d ∈ s.declarations, (preambleLength ls : Int) ≤ d.footprint.line
  outside : ∀ d ∈ s.declarations, ∀ i ∈ s.items,
    d.footprint ≤ i.span.start ∨ i.span.stop ≤ d.footprint
  alone : ∀ d ∈ s.declarations, ∀ e ∈ s.declarations, d.isStatement = false →
    e.isStatement = false → d.span.start < e.span.start → d.span.stop.line < e.span.start.line
  headed : ∀ r ∈ s.region, ∀ p ∈ ls.zipIdx, isAttributeLine p.1 = true →
    r.start.line ≤ p.2 → (p.2 : Int) < r.stop.line →
    (∀ i ∈ s.items, (p.2 : Int) < i.span.start.line ∨ i.span.stop.line < p.2) →
      ∃ d ∈ s.declarations, d.footprint.line ≤ p.2 ∧ (p.2 : Int) < d.span.start.line

theorem Survey.Apart.outside_upTo {ls : List Line} {s : Survey} (h : s.Apart ls) (p : Position) :
    s.Outside p :=
  fun d hd i hi _ => h.outside d hd i hi

namespace Layout

variable {ls : List Line} {ss : List Sighting} (h : Layout ls ss)

section Block

variable {above : List Line} {before first : List Char} {more : List Line} {after : List Char}
  {block above' : List Line}

include h

/-- No declaration starts above the first attribute of another one and ends below it. -/
theorem not_around_footprint (hd : .declaration above before first more after ∈ ss)
    (hblock : Headed above before block above') (hne : block ≠ []) {above₁ : List Line}
    {before₁ first₁ : List Char} {more₁ : List Line} {after₁ : List Char}
    (he : .declaration above₁ before₁ first₁ more₁ after₁ ∈ ss)
    (hout : (survey ls).Outside (Sighting.declaration above₁ before₁ first₁ more₁ after₁).stop)
    (htop : above₁.length < above'.length) : above₁.length + more₁.length < above'.length := by
  by_contra hbottom
  obtain ⟨top, rest, hcons⟩ := List.exists_cons_of_ne_nil hne
  obtain ⟨-, hfoot⟩ := hblock.topped top (by rw [hcons]; rfl)
  rcases hout _ (Survey.mem_declarations (h.mem_items hd rfl)) _
      (h.mem_items he rfl) (Position.le_refl _) with hle | hle
  · rw [hfoot] at hle
    change _ ≤ (⟨(above₁.length : Int), (before₁.length : Int)⟩ : Position) at hle
    rw [Position.le_def] at hle
    simp only at hle
    omega
  · rw [hfoot] at hle
    change (⟨((above₁.length + more₁.length : Nat) : Int),
      ((lastRow before₁ first₁ more₁).length : Int)⟩ : Position) ≤ _ at hle
    rw [Position.le_def] at hle
    simp only at hle
    have hrow : above₁.length + more₁.length = above'.length := by omega
    -- its last row is the line of the attribute, which opens before the `;` at its end
    have hlast := h.getElem?_bottom he
    obtain ⟨below, hls⟩ := h.lies hd
    have htopline := hblock.getElem?_top hls (by rw [hcons]; rfl)
    rw [hrow, htopline] at hlast
    have hindent := indent_lt (isBlank_lastRow (h.ends he) before₁ []) after₁
    rw [List.append_nil] at hindent
    rw [Option.some.inj hlast] at hle
    omega

/-- No declaration reaches into the block of attributes above another one. -/
theorem top_ge_of_bottom_ge (hd : .declaration above before first more after ∈ ss)
    (hblock : Headed above before block above') (hne : block ≠ []) {e : Sighting} (he : e ∈ ss)
    (hdecl : e.isDeclaration = true) (hout : (survey ls).Outside e.stop)
    (hbottom : above'.length ≤ e.bottom) : above.length ≤ e.top := by
  by_contra htop
  obtain ⟨st, hrun⟩ := h.run
  obtain ⟨below, hls⟩ := h.lies hd
  -- from a declaration to the one before it on its line, as long as it starts in the block
  obtain ⟨a, b, hsplit⟩ := List.append_of_mem he
  induction hn : a.length using Nat.strongRecOn generalizing a b e with
  | ind n ih =>
    cases e with
    | passed _ _ => cases hdecl
    | comment _ _ _ => cases hdecl
    | declaration above₁ before₁ first₁ more₁ after₁ =>
      by_cases hin : above'.length ≤ above₁.length
      · obtain ⟨line, hline, hcases⟩ := (hsplit ▸ hrun).line_of_declaration
        obtain ⟨l, hl, hrow⟩ := hblock.getElem? hls hin (Nat.lt_of_not_le htop)
        have hsame : line = l := Option.some.inj (hline.symm.trans hrow)
        rcases hcases with ⟨hpass, -⟩ | ⟨-, e', he', hdecl', hbottom'⟩
        · rw [hsame, hblock.passable l hl] at hpass
          cases hpass
        · obtain ⟨a', b', rfl⟩ := List.append_of_mem he'
          have hle := e'.top_le_bottom
          have hlt : ¬ above.length ≤ above₁.length := htop
          have hall : ss = a' ++ e' ::
              (b' ++ .declaration above₁ before₁ first₁ more₁ after₁ :: b) := by
            rw [hsplit]
            simp
          have hstop := Position.le_trans (h.stop_le_start ⟨a', b', b, hall⟩)
            (Sighting.start_le_stop (.declaration above₁ before₁ first₁ more₁ after₁))
          exact ih a'.length (by rw [← hn]; simp) (by rw [hall]; simp) hdecl' (hout.mono hstop)
            (by omega) (by omega) a' _ hall rfl
      · exact absurd hbottom (Nat.not_le.2
          (h.not_around_footprint hd hblock hne he hout (Nat.lt_of_not_le hin)))

/-- A declaration that follows another one on its line does not open the line. -/
theorem isBlank_of_bottom_eq (hd : .declaration above before first more after ∈ ss) {e : Sighting}
    (hdecl : e.isDeclaration = true)
    (hbefore : Before ss e (.declaration above before first more after))
    (hbottom : e.bottom = above.length) : isBlank before = false := by
  have horder := h.stop_le_start hbefore
  have he : e ∈ ss := hbefore.mem_left
  cases e with
  | passed _ _ => cases hdecl
  | comment _ _ _ => cases hdecl
  | declaration above₁ before₁ first₁ more₁ after₁ =>
    have hrow : above₁.length + more₁.length = above.length := hbottom
    have hlast := h.getElem?_bottom he
    have hfirst := (h.lies hd).getElem? (Nat.le_refl _) (Sighting.top_le_bottom _)
    obtain ⟨y, tail, hy⟩ := exists_rows_eq_cons before first more after
    rw [Nat.sub_self, Sighting.lines, hy, Sighting.top, Sighting.above, ← hrow, hlast] at hfirst
    have hsame : lastRow before₁ first₁ more₁ ++ after₁ = before ++ y := Option.some.inj hfirst
    have hlen : (lastRow before₁ first₁ more₁).length ≤ before.length := by
      simp only [Sighting.stop, Sighting.start, placed, Position.le_def, hrow] at horder
      omega
    obtain ⟨x, rfl⟩ : lastRow before₁ first₁ more₁ <+: before :=
      List.prefix_of_prefix_length_le ⟨after₁, hsame⟩ (List.prefix_append _ _) hlen
    exact isBlank_lastRow (h.ends he) before₁ x

/-- A declaration ends above the attributes of the next one. -/
theorem bottom_lt_block (hd : .declaration above before first more after ∈ ss)
    (hblock : Headed above before block above') (hne : block ≠ []) {e : Sighting}
    (hdecl : e.isDeclaration = true) (hout : (survey ls).Outside e.stop)
    (hbefore : Before ss e (.declaration above before first more after)) :
    e.bottom < above'.length := by
  by_contra hbottom
  have he : e ∈ ss := hbefore.mem_left
  have htop := h.top_ge_of_bottom_ge hd hblock hne he hdecl hout (Nat.le_of_not_lt hbottom)
  have horder := h.stop_le_start hbefore
  have hsame : e.bottom = above.length := by
    cases e with
    | passed _ _ => cases hdecl
    | comment _ _ _ => cases hdecl
    | declaration above₁ before₁ first₁ more₁ after₁ =>
      simp only [Sighting.stop, Sighting.start, placed, Position.le_def] at horder
      simp only [Sighting.bottom, Sighting.top, Sighting.above, Sighting.height] at htop ⊢
      omega
  have hblank := h.isBlank_of_bottom_eq hd hdecl hbefore hsame
  rw [hblock.blank hne] at hblank
  cases hblank

/-- What ends on the last row of a declaration ends before the attributes of the next one. -/
theorem le_footprint (hd : .declaration above before first more after ∈ ss) {e : Sighting}
    (hdecl : e.isDeclaration = true) (hout : (survey ls).Outside e.stop)
    (hbefore : Before ss e (.declaration above before first more after)) {p : Position}
    (hp : p ≤ (Sighting.declaration above before first more after).start)
    (hline : p.line = e.bottom) : p ≤ (declared above before first more after).footprint := by
  obtain ⟨block, above', hblock⟩ := exists_headed above before
  rcases eq_or_ne block [] with hnil | hne
  · rw [hblock.bare hnil]
    exact hp
  · have hlt := h.bottom_lt_block hd hblock hne hdecl hout hbefore
    have hfoot := hblock.line_footprint first more after
    rw [Position.le_def]
    omega

end Block

end Layout

/-! ## Kept text -/

/-- Where the kept text of a declaration starts and ends. -/
theorem Sighting.kept_bounds {e : Sighting} (hdecl : e.isDeclaration = true) {k : Span}
    (hk : e.kept? = some k) : k.start ≤ e.start ∧ e.stop ≤ k.stop := by
  cases e with
  | passed _ _ => cases hdecl
  | comment _ _ _ => cases hdecl
  | declaration above before first more after =>
    obtain ⟨-, hstart, hstop⟩ := Declaration.kept?_eq_some hk
    refine ⟨hstart ▸ footprint_le_start above before first more after, ?_⟩
    rcases hstop with ⟨-, hstop⟩ | ⟨-, hstop⟩
    · have hlen : ((lastRow before first more).length : Int) ≤
          (lastRow before first more ++ after).length := by
        rw [List.length_append]
        omega
      rw [hstop]
      exact Or.inr ⟨rfl, hlen⟩
    · rw [hstop]
      exact Position.le_refl _

theorem contains_iff {s t : Span} :
    s.contains t = true ↔ s.start ≤ t.start ∧ t.stop ≤ s.stop := by
  simp [Span.contains]

/-- Text that is kept once is kept to the end, maybe as a part of other kept text. -/
theorem exists_contains_foldl_preserve (kept spans : List Span) :
    (∀ k ∈ kept ++ spans, ∃ k' ∈ spans.foldl preserve kept, k'.contains k = true) ∧
      ∀ k ∈ spans.foldl preserve kept, k ∈ kept ++ spans := by
  induction spans generalizing kept with
  | nil => exact ⟨fun k hk => ⟨k, by simpa using hk, contains_iff.2
      ⟨Position.le_refl _, Position.le_refl _⟩⟩, fun k hk => by simpa using hk⟩
  | cons s spans ih =>
    obtain ⟨hkeeps, hmem⟩ := ih (preserve kept s)
    refine ⟨fun k hk => ?_, fun k hk => ?_⟩
    · by_cases hin : k ∈ kept ∧ s.contains k = true
      · obtain ⟨k', hk', hcontains⟩ := hkeeps s (by simp [preserve])
        obtain ⟨hstart, hstop⟩ := contains_iff.1 hcontains
        obtain ⟨hstart', hstop'⟩ := contains_iff.1 hin.2
        exact ⟨k', hk', contains_iff.2
          ⟨Position.le_trans hstart hstart', Position.le_trans hstop' hstop⟩⟩
      · refine hkeeps k ?_
        simp only [List.mem_append, List.mem_cons] at hk
        simp only [preserve, List.mem_append, List.mem_filter, List.mem_singleton,
          Bool.not_eq_true', Bool.eq_false_iff]
        tauto
    · have hk' := hmem k hk
      simp only [preserve, List.mem_append, List.mem_filter, List.mem_singleton] at hk'
      simp only [List.mem_append, List.mem_cons]
      tauto

namespace Layout

variable {ls : List Line} {ss : List Sighting} (h : Layout ls ss)

include h

theorem preserved_eq : (survey ls).preserved = (ss.filterMap Sighting.kept?).foldl preserve [] := by
  rw [Survey.preserved, h.items, List.filterMap_filterMap]
  rfl

theorem exists_preserved {s : Sighting} (hs : s ∈ ss) {k : Span} (hk : s.kept? = some k) :
    ∃ s' ∈ ss, ∃ k' ∈ (survey ls).preserved, s'.kept? = some k' ∧ k'.contains k = true := by
  obtain ⟨hkeeps, hmem⟩ := exists_contains_foldl_preserve [] (ss.filterMap Sighting.kept?)
  rw [← h.preserved_eq] at hkeeps hmem
  obtain ⟨k', hk', hcontains⟩ := hkeeps k (List.mem_filterMap.2 ⟨s, hs, hk⟩)
  obtain ⟨s', hs', hkept⟩ := List.mem_filterMap.1 (hmem k' hk')
  exact ⟨s', hs', k', hk', hkept, hcontains⟩

/-- Text that is kept behind a declaration starts behind it. -/
theorem stop_le_kept_start {e s : Sighting} (hdecl : e.isDeclaration = true)
    (hout : (survey ls).Outside e.stop) (hs : s ∈ ss) (hbefore : Before ss e s) {k : Span}
    (hk : s.kept? = some k) : e.stop ≤ k.start := by
  have horder := h.stop_le_start hbefore
  cases s with
  | passed _ _ => cases hk
  | comment above line more =>
    cases hk
    simp only [Sighting.start, Position.le_def] at horder ⊢
    omega
  | declaration above before first more after =>
    obtain ⟨-, hstart, -⟩ := Declaration.kept?_eq_some hk
    rw [hstart]
    refine h.le_footprint hs hdecl hout hbefore horder ?_
    cases e with
    | passed _ _ => cases hdecl
    | comment _ _ _ => cases hdecl
    | declaration _ _ _ _ _ => rfl

/-- A kept declaration is no part of other kept text. -/
theorem mem_preserved {e : Sighting} (he : e ∈ ss) (hdecl : e.isDeclaration = true)
    (hout : (survey ls).Outside e.stop) {k : Span} (hk : e.kept? = some k) :
    k ∈ (survey ls).preserved := by
  obtain ⟨s, hs, k', hk', hkept, hcontains⟩ := h.exists_preserved he hk
  obtain ⟨hstart, hstop⟩ := contains_iff.1 hcontains
  obtain ⟨hstart', hstop'⟩ := Sighting.kept_bounds hdecl hk
  have hlt := h.start_lt_stop he hdecl
  rcases before_cases hs he with rfl | hbefore | hbefore
  · rw [hk] at hkept
    exact Option.some.inj hkept ▸ hk'
  · have hle := h.kept_stop_le_start hbefore hkept
    simp only [Position.le_def, Position.lt_def] at *
    omega
  · have hle := h.stop_le_kept_start hdecl hout hs hbefore hkept
    simp only [Position.le_def, Position.lt_def] at *
    omega

end Layout

/-! ## The lines of the organized document -/

section Output

variable {text : List Char} {scan : Scan} (deps : Option Dependencies)

/-- Kept text before a declaration of the region is among the new lines. -/
theorem mem_regionLines_of_kept {k r : Span} (hk : k ∈ scan.preserved)
    (hr : scan.region = some r) (hin : r.contains k = true)
    (hnext : ∃ s ∈ scan.statements, ∃ t, s.span = some t ∧ k.start < t.start) {l : Line}
    (hl : l ∈ lines (excerpt text k)) : l ∈ regionLines deps text scan := by
  obtain ⟨d, hd, hblock⟩ := exists_nextBlock hnext
  have hmem : d.block ∈ distinct (scan.statements.map Statement.block) :=
    mem_distinct.2 (List.mem_map_of_mem hd)
  refine mem_paragraphs_of_mem (List.mem_map_of_mem hmem) (List.mem_append_left _ ?_)
  refine List.mem_flatMap.2 ⟨k, ?_, hl⟩
  rw [headerSpans, List.mem_filter, List.mem_filter]
  exact ⟨⟨hk, by rw [hr]; exact hin⟩, by rw [hblock]; exact beq_iff_eq.2 rfl⟩

/-- The attributes of a declaration are among the new lines. -/
theorem exists_regionLines_of_attribute (h : scan.Sound) {s : Statement}
    (hs : s ∈ scan.statements) {a : String} (ha : a ∈ s.attributes) :
    ∃ l ∈ regionLines deps text scan, trim l = trim a.toList := by
  have hmember : s ∈ scan.members s.block := List.mem_filter.2 ⟨hs, beq_iff_eq.2 rfl⟩
  obtain ⟨g, hg, m, hm, hkey⟩ := Group.exists_mem_organize
    (fun t ht => h.written t (List.mem_filter.1 ht).1) .organizer deps hmember
  have hattrs : m.attributeKey = s.attributeKey := congrArg (fun k => k.2.2) hkey
  have hmem : trimmed a ∈ m.attributes.map trimmed := by
    have hin : trimmed a ∈ m.attributeKey := by
      rw [hattrs]
      exact List.mem_mergeSort.2 (List.mem_map_of_mem ha)
    exact List.mem_mergeSort.1 hin
  obtain ⟨b, hb, hsame⟩ := List.mem_map.1 hmem
  refine ⟨b.toList, ?_, String.ofList_injective hsame⟩
  have hblock : s.block ∈ distinct (scan.statements.map Statement.block) :=
    mem_distinct.2 (List.mem_map_of_mem hs)
  refine mem_paragraphs_of_mem (List.mem_map_of_mem hblock) (List.mem_append_right _ ?_)
  have hpart : g.statements ∈ Group.parts
      (Group.organize .organizer deps (scan.members s.block)).value := by
    refine List.mem_map_of_mem (List.mem_filter.2 ⟨hg, ?_⟩)
    simpa using List.ne_nil_of_mem hm
  refine mem_paragraphs_of_mem (List.mem_map_of_mem hpart) (List.mem_flatMap.2 ⟨m, hm, ?_⟩)
  exact List.mem_append_left _ (List.mem_map_of_mem hb)

/-- A line of a block, with what stands around the block. -/
theorem exists_mem_fringe (ws : Line) {block : List Line} {l : Line} (hl : l ∈ block)
    (after : Line) : ∃ u v, u ++ l ++ v ∈ fringe ws block after ∧ (u = ws ∨ u = []) ∧
      (v = after ∨ v = []) := by
  cases block with
  | nil => exact absurd hl List.not_mem_nil
  | cons first more =>
    rw [fringe_cons]
    induction more generalizing ws first with
    | nil =>
      rw [List.mem_singleton.1 hl]
      exact ⟨ws, after, by simp [rows_nil], Or.inl rfl, Or.inl rfl⟩
    | cons next more ih =>
      rw [rows_cons]
      rcases List.mem_cons.1 hl with rfl | hl
      · exact ⟨ws, [], by simp, Or.inl rfl, Or.inr rfl⟩
      · obtain ⟨u, v, hmem, hu, hv⟩ := ih [] next hl
        exact ⟨u, v, List.mem_cons_of_mem _ hmem, Or.inr (hu.elim id id), hv⟩

theorem exists_trim_fringe {ws after : Line} (hws : isBlank ws = true) (hafter : isBlank after = true)
    {block : List Line} {l : Line} (hl : l ∈ block) :
    ∃ o ∈ fringe ws block after, trim o = trim l := by
  obtain ⟨u, v, hmem, hu, hv⟩ := exists_mem_fringe ws hl after
  refine ⟨_, hmem, ?_⟩
  have hu' : isBlank u = true := by
    rcases hu with rfl | rfl
    · exact hws
    · rfl
  have hv' : isBlank v = true := by
    rcases hv with rfl | rfl
    · exact hafter
    · rfl
  rw [trim_append_right hv', trim_append_left hu']

theorem isBlank_headOf (above : List Line) (x : Line) : isBlank (headOf above x).2 = true := by
  rw [headOf]
  split
  · rename_i hx
    exact hx
  · rfl

theorem isBlank_tailOf (trailingBlank : Bool) (y : Line) (below : List Line) :
    isBlank (tailOf trailingBlank y below).1 = true := by
  rw [tailOf]
  split
  · rename_i hy
    split
    · exact hy
    · rfl
  · rfl

/-- The organized document, if there is something to organize. -/
theorem value_organize (formatter : Formatter) {region : Span}
    (hr : (Document.scan text).value.region = some region) :
    (organize formatter { deps } none none text).run.value =
      .ok (replaceRegion text region (unlines (regionLines deps text (Document.scan text).value))
        (Document.scan text).value.trailingBlank) := by
  rw [← toList_renderRegion deps text (sound_scan text)]
  exact organize_of_off formatter none none rfl hr

theorem value_organize_of_none (formatter : Formatter)
    (hr : (Document.scan text).value.region = none) :
    (organize formatter { deps } none none text).run.value = .ok text := by
  rw [organize_eq_splice]
  unfold draft?
  rw [hr]
  rfl

end Output

/-- The lines above and below the region are lines of the new document, and the new lines of the
region are, between white space. -/
structure Output (ls out new : List Line) (r : Span) : Prop where
  head : ∀ (i : Nat) l, ls[i]? = some l → (i : Int) < r.start.line → l ∈ out
  tail : ∀ (i : Nat) l, ls[i]? = some l → r.stop.line < i → l ∈ out
  body : ∀ l ∈ new, ∃ o ∈ out, trim o = trim l

theorem output_replaceRegion {text : List Char} {r : Span} {above above' : List Line}
    {x y x' y' : Line} {below below' : List Line} (hstart : Cut (lines text) r.start above x y below)
    (hstop : Cut (lines text) r.stop above' x' y' below') {new : List Line}
    (hnew : ∀ l ∈ new, '\n' ∉ l) {z : List Char} (hends : unlines new = z ++ [';'])
    (trailingBlank : Bool) :
    Output (lines text) (lines (replaceRegion text r (unlines new) trailingBlank)) new r := by
  obtain ⟨hstart, hp⟩ := hstart
  obtain ⟨hstop, hq⟩ := hstop
  have hlines := lines_replaceRegion hstart hstop hnew hends (by decide) trailingBlank
  rw [← hp, ← hq] at hlines
  rw [hlines]
  refine ⟨fun i l hl hi => ?_, fun i l hl hi => ?_, fun l hl => ?_⟩
  · rw [hp] at hi
    have hlt : i < above.reverse.length := by
      rw [List.length_reverse]
      exact Int.ofNat_lt.1 hi
    rw [hstart, List.getElem?_append_left hlt] at hl
    refine List.mem_append_left _ ?_
    rw [headOf]
    split
    · exact List.mem_of_getElem? hl
    · exact List.mem_append_left _ (List.mem_of_getElem? hl)
  · rw [hq] at hi
    have hlt : above'.length < i := Int.ofNat_lt.1 hi
    obtain ⟨j, rfl⟩ := Nat.exists_eq_add_of_lt hlt
    rw [hstop, List.getElem?_append_right (by simp; omega), List.length_reverse,
      show above'.length + j + 1 - above'.length = j + 1 by omega, List.getElem?_cons_succ] at hl
    refine List.mem_append_right _ (List.mem_append_right _ ?_)
    have hmem := List.mem_of_getElem? hl
    rw [tailOf]
    split
    · split
      · exact hmem
      · exact List.mem_cons_of_mem _ hmem
    · exact List.mem_cons_of_mem _ (List.mem_cons_of_mem _ hmem)
  · obtain ⟨o, ho, htrim⟩ := exists_trim_fringe (isBlank_headOf above x)
      (isBlank_tailOf trailingBlank y' below') hl
    exact ⟨o, List.mem_append_right _ (List.mem_append_left _ ho), htrim⟩

theorem Layout.output {text : List Char} {ss : List Sighting} (h : Layout (lines text) ss)
    {first last : Sighting} (hb : Bounds ss first last)
    (hr : (survey (lines text)).region = some ⟨first.footprint, last.stop⟩) (formatter : Formatter)
    (deps : Option Dependencies) :
    ∃ out, (organize formatter { deps } none none text).run.value = .ok out ∧
      Output (lines text) (lines out) (regionLines deps text (scan text).value)
        ⟨first.footprint, last.stop⟩ := by
  obtain ⟨above, before, first, more, after, rfl, hstatement⟩ :=
    Sighting.exists_of_isOrganized hb.first_organized
  obtain ⟨above', before', first', more', after', rfl, -⟩ :=
    Sighting.exists_of_isOrganized hb.last_organized
  obtain ⟨a, x, y, b, hstart⟩ := (h.lies hb.mem_first).cut_footprint
  obtain ⟨b', hstop⟩ := (h.lies hb.mem_last).cut_stop
  have hne : (scan text).value.statements ≠ [] := by
    obtain ⟨s, hs, -⟩ := exists_mem_statementsFrom (h.mem_items hb.mem_first rfl) hstatement 0 false
    exact List.ne_nil_of_mem hs
  obtain ⟨z, hz⟩ := regionLines_ends deps text (sound_scan text) hne
  refine ⟨_, value_organize deps formatter hr, ?_⟩
  exact output_replaceRegion (r := ⟨_, _⟩) hstart hstop
    (fun l hl => newline_not_mem_regionLines deps text (sound_scan text) hl) hz _

end TidyUse.Document
