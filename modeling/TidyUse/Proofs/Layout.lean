import TidyUse.Proofs.Findings

/-!
# The layout of a document

* `Headed` : the block of attributes above a declaration; `footprint_le_start`;
* `Layout` : a document and what a survey meets in it, in order;
* `Bounds` : the first and the last declaration to organize; `Layout.exists_bounds`;
* `Cut` : a position as a way to cut the document in two.
-/

namespace TidyUse.Document

open Text

/-! ## The block of attributes above a declaration -/

/-- The lines above a declaration end with a block that holds its attributes. -/
structure Headed (above : List Line) (before : List Char) (block above' : List Line) : Prop where
  above_eq : above = block.reverse ++ above'
  passable : ∀ l ∈ block, isPassable l = true
  blank : block ≠ [] → isBlank before = true
  clear : isBlank before = true → Clear above'
  attributes : (attributesFor above before).texts =
    (block.filter isAttributeLine).map fun l => String.ofList (trim l)
  bare : block = [] → ∀ first more after,
    (declared above before first more after).footprint = ⟨above.length, before.length⟩
  topped : ∀ top ∈ block.head?, isAttributeLine top = true ∧ ∀ first more after,
    (declared above before first more after).footprint = ⟨above'.length, indent top⟩

theorem headed_append {above' : List Line} (hclear : Clear above') {block : List Line}
    (hpass : ∀ l ∈ block, isPassable l = true)
    (hhead : ∀ l ∈ block.head?, isAttributeLine l = true) {before : List Char}
    (hb : isBlank before = true) : Headed (block.reverse ++ above') before block above' := by
  refine ⟨rfl, hpass, fun _ => hb, fun _ => hclear, ?_, ?_, ?_⟩
  · rw [attributesFor, if_pos hb, attributesAbove_append hclear block hpass hhead]
  · rintro rfl first more after
    exact footprint_declared_of_clear hclear before first more after
  · intro top htop
    obtain ⟨rest, rfl⟩ : ∃ rest, block = top :: rest := by
      cases block with
      | nil => cases htop
      | cons l rest => exact ⟨rest, by cases htop; rfl⟩
    exact ⟨hhead top htop, fun first more after =>
      footprint_declared_append hclear hpass (hhead top htop) hb first more after⟩

theorem exists_headed (above : List Line) (before : List Char) :
    ∃ block above', Headed above before block above' := by
  by_cases hb : isBlank before = true
  · obtain ⟨block, above', rfl, hclear, hpass, hhead⟩ := exists_attribute_block above
    exact ⟨block, above', headed_append hclear hpass hhead hb⟩
  · have hattr : attributesFor above before = ⟨[], 0⟩ := by rw [attributesFor, if_neg hb]
    refine ⟨[], above, rfl, by simp, by simp, fun hb' => absurd hb' hb, by rw [hattr]; rfl, ?_,
      by simp⟩
    intro _ first more after
    show (if (attributesFor above before).height = 0 then _ else _) = _
    rw [hattr, if_pos rfl]

namespace Headed

variable {above block above' : List Line} {before : List Char}
  (h : Headed above before block above')

include h

theorem length_above : above.length = above'.length + block.length := by
  rw [h.above_eq, List.length_append, List.length_reverse, Nat.add_comm]

theorem line_footprint (first : List Char) (more : List Line) (after : List Char) :
    (declared above before first more after).footprint.line = above'.length := by
  have hlen := h.length_above
  cases hblock : block with
  | nil =>
    rw [h.bare hblock, hlen, hblock]
    simp
  | cons top rest => rw [(h.topped top (by rw [hblock]; rfl)).2]

/-- The rows of the block. -/
theorem getElem? {ls rest : List Line} (hls : ls = above.reverse ++ rest) {r : Nat}
    (hr : above'.length ≤ r) (hr' : r < above.length) : ∃ l ∈ block, ls[r]? = some l := by
  have hlen := h.length_above
  have hlt : r - above'.length < block.length := by omega
  refine ⟨block[r - above'.length], List.getElem_mem hlt, ?_⟩
  rw [hls, h.above_eq, List.reverse_append, List.reverse_reverse, List.append_assoc,
    List.getElem?_append_right (by simpa using hr), List.length_reverse,
    List.getElem?_append_left hlt, List.getElem?_eq_getElem hlt]

/-- The first row of the block. -/
theorem getElem?_top {ls rest : List Line} (hls : ls = above.reverse ++ rest) {top : Line}
    (htop : block.head? = some top) : ls[above'.length]? = some top := by
  obtain ⟨tail, hcons⟩ := List.head?_eq_some_iff.1 htop
  rw [hls, h.above_eq, hcons]
  simp

end Headed

theorem indent_lt {x : List Char} (h : isBlank x = false) (y : List Char) :
    indent (x ++ y) < x.length := by
  have hlt : (x.takeWhile isSpace).length < x.length := by
    refine lt_of_le_of_ne (List.takeWhile_prefix isSpace).length_le fun hlen => ?_
    have hall : x.takeWhile isSpace = x := (List.takeWhile_prefix isSpace).eq_of_length hlen
    rw [isBlank, ← hall, List.all_takeWhile] at h
    cases h
  rw [indent, List.takeWhile_append, if_neg hlt.ne]
  exact hlt

/-! ## The order of declarations and their attributes -/

theorem exists_rows_eq_cons (before first : List Char) (more : List Line) (after : List Char) :
    ∃ y tail, rows before first more after = (before ++ y) :: tail := by
  cases more with
  | nil => exact ⟨first ++ after, [], by rw [rows_nil, List.append_assoc]⟩
  | cons next more => exact ⟨first, _, rows_cons ..⟩

theorem footprint_le_start (above : List Line) (before first : List Char) (more : List Line)
    (after : List Char) :
    (declared above before first more after).footprint ≤ ⟨above.length, before.length⟩ := by
  obtain ⟨block, above', hblock⟩ := exists_headed above before
  rcases eq_or_ne block [] with hnil | hne
  · rw [hblock.bare hnil]
    exact Position.le_refl _
  · have hfoot := hblock.line_footprint first more after
    have hlen := hblock.length_above
    have hpos := List.length_pos_iff.2 hne
    rw [Position.le_def]
    simp only [hfoot]
    omega

def Before (ss : List Sighting) (s t : Sighting) : Prop := ∃ a b c, ss = a ++ s :: (b ++ t :: c)

theorem Before.mem_left {ss : List Sighting} {s t : Sighting} (h : Before ss s t) : s ∈ ss := by
  obtain ⟨a, b, c, rfl⟩ := h
  simp

theorem Before.mem_right {ss : List Sighting} {s t : Sighting} (h : Before ss s t) : t ∈ ss := by
  obtain ⟨a, b, c, rfl⟩ := h
  simp

theorem before_of_mem_left {a c : List Sighting} {s t : Sighting} (h : s ∈ a) :
    Before (a ++ t :: c) s t := by
  obtain ⟨a, b, rfl⟩ := List.append_of_mem h
  exact ⟨a, b, c, by simp⟩

theorem before_of_mem_right {a c : List Sighting} {s t : Sighting} (h : t ∈ c) :
    Before (a ++ s :: c) s t := by
  obtain ⟨b, c, rfl⟩ := List.append_of_mem h
  exact ⟨a, b, c, rfl⟩

theorem before_cases {ss : List Sighting} {s t : Sighting} (hs : s ∈ ss) (ht : t ∈ ss) :
    s = t ∨ Before ss s t ∨ Before ss t s := by
  obtain ⟨a, b, rfl⟩ := List.append_of_mem ht
  rcases List.mem_append.1 hs with hs | hs
  · exact Or.inr (Or.inl (before_of_mem_left hs))
  · rcases List.mem_cons.1 hs with rfl | hs
    · exact Or.inl rfl
    · exact Or.inr (Or.inr (before_of_mem_right hs))

/-- A document and what a survey meets in it. -/
structure Layout (ls : List Line) (ss : List Sighting) : Prop where
  run : ∃ st, Run (.initial ls) ss st
  items : (survey ls).items = ss.filterMap Sighting.item?

theorem exists_layout (ls : List Line) : ∃ ss, Layout ls ss := by
  obtain ⟨ss, st, hrun, hitems⟩ := exists_run ls
  exact ⟨ss, ⟨st, hrun⟩, hitems⟩

namespace Layout

variable {ls : List Line} {ss : List Sighting} (h : Layout ls ss)

include h

theorem lies {s : Sighting} (hs : s ∈ ss) : s.Lies ls := by
  obtain ⟨st, hrun⟩ := h.run
  rw [← lines_initial ls]
  exact hrun.lies hs

theorem stop_le_start {s t : Sighting} (hst : Before ss s t) : s.stop ≤ t.start := by
  obtain ⟨st, hrun⟩ := h.run
  have hpair := hrun.pairwise
  obtain ⟨a, b, c, rfl⟩ := hst
  exact (List.pairwise_cons.1 (List.pairwise_append.1 hpair).2.1).1 t (by simp)

theorem kept_stop_le_start {s t : Sighting} (hst : Before ss s t) {k : Span}
    (hk : s.kept? = some k) : k.stop ≤ t.start := by
  obtain ⟨st, hrun⟩ := h.run
  obtain ⟨a, b, c, rfl⟩ := hst
  exact hrun.kept_stop_le hk (by simp)

theorem mem_items {s : Sighting} (hs : s ∈ ss) {i : Item} (hi : s.item? = some i) :
    i ∈ (survey ls).items := by
  rw [h.items]
  exact List.mem_filterMap.2 ⟨s, hs, hi⟩

theorem ends {above : List Line} {before first : List Char} {more : List Line} {after : List Char}
    (hs : .declaration above before first more after ∈ ss) : Ends 0 first more := by
  obtain ⟨st, hrun⟩ := h.run
  obtain ⟨a, b, rfl⟩ := List.append_of_mem hs
  obtain ⟨st₁, st₂, -, hstep, -⟩ := hrun.split
  obtain ⟨_, _, _, _, -, hstands⟩ := hstep.exists_stands
  exact hstands.ends

/-- The last row of a declaration. -/
theorem getElem?_bottom {above : List Line} {before first : List Char} {more : List Line}
    {after : List Char} (hs : .declaration above before first more after ∈ ss) :
    ls[above.length + more.length]? = some (lastRow before first more ++ after) := by
  have hrow := (h.lies hs).getElem? (Sighting.top_le_bottom _) (Nat.le_refl _)
  have hlast : (Sighting.declaration above before first more after).lines[more.length]? =
      some (lastRow before first more ++ after) := by
    rw [Sighting.lines, rows, List.getElem?_append_right (by simp)]
    simp
  have hsub : (Sighting.declaration above before first more after).bottom -
      (Sighting.declaration above before first more after).top = more.length := by
    rw [Sighting.bottom, Nat.add_sub_cancel_left]
    rfl
  rw [hsub, hlast] at hrow
  exact hrow

theorem start_lt_stop {e : Sighting} (he : e ∈ ss) (hdecl : e.isDeclaration = true) :
    e.start < e.stop := by
  cases e with
  | passed _ _ => cases hdecl
  | comment _ _ _ => cases hdecl
  | declaration above before first more after =>
    simp only [Sighting.start, Sighting.stop, placed, Position.lt_def]
    cases more with
    | nil =>
      obtain ⟨x, hx⟩ := (h.ends he).last before
      obtain ⟨y, hy⟩ := (h.ends he).last []
      have hlen := congrArg List.length hy
      simp only [lastRow, List.nil_append, List.length_append, List.length_singleton] at hlen
      simp only [lastRow, List.length_append, List.length_nil]
      omega
    | cons next more =>
      rw [List.length_cons]
      omega

end Layout

/-! ## The region -/

/-- Where the attributes of a declaration start. -/
def Sighting.footprint : Sighting → Position
  | declaration above before first more after => (declared above before first more after).footprint
  | s => s.start

theorem Sighting.exists_of_isOrganized {s : Sighting} (h : s.isOrganized = true) :
    ∃ above before first more after, s = .declaration above before first more after ∧
      (declared above before first more after).isStatement = true := by
  cases s with
  | passed _ _ => cases h
  | comment _ _ _ => cases h
  | declaration above before first more after =>
    exact ⟨_, _, _, _, _, rfl, Sighting.isOrganized_declaration _ _ _ _ _ ▸ h⟩

/-- What is organized of a sighting is its declaration. -/
theorem Sighting.exists_of_organized {s : Sighting} {d : Declaration}
    (h : s.item?.bind Item.organized? = some d) : ∃ above before first more after,
      s = .declaration above before first more after ∧
        d = declared above before first more after := by
  cases s with
  | passed _ _ => cases h
  | comment _ _ _ => cases h
  | declaration above before first more after =>
    rw [Sighting.item?, Option.bind_some, Item.organized?] at h
    split at h
    · cases h
      exact ⟨above, before, first, more, after, rfl, rfl⟩
    · cases h

theorem region_eq_some {s : Survey} {region : Span} (h : s.region = some region) :
    ∃ first last, s.organized.head? = some first ∧ s.organized.getLast? = some last ∧
      region = ⟨first.footprint, last.span.stop⟩ := by
  unfold Survey.region at h
  split at h
  · rename_i first last hfirst hlast
    cases h
    exact ⟨first, last, hfirst, hlast, rfl⟩
  · cases h

/-- The first and the last declaration to organize. -/
structure Bounds (ss : List Sighting) (first last : Sighting) : Prop where
  first_organized : first.isOrganized = true
  last_organized : last.isOrganized = true
  first_split : ∃ a b, ss = a ++ first :: b ∧ a.any Sighting.isOrganized = false
  last_split : ∃ a b, ss = a ++ last :: b ∧ b.any Sighting.isOrganized = false

namespace Layout

variable {ls : List Line} {ss : List Sighting} (h : Layout ls ss)

include h

theorem organized_eq :
    (survey ls).organized = ss.filterMap fun s => s.item?.bind Item.organized? := by
  rw [Survey.organized, h.items, List.filterMap_filterMap]

theorem exists_bounds {r : Span} (hr : (survey ls).region = some r) :
    ∃ first last, Bounds ss first last ∧ r = ⟨first.footprint, last.stop⟩ := by
  have hnone : ∀ {a : List Sighting}, (∀ s ∈ a, (s.item?.bind Item.organized?) = none) →
      a.any Sighting.isOrganized = false := by
    intro a ha
    rw [List.any_eq_false]
    intro s hs
    rw [Sighting.isOrganized, ha s hs]
    simp
  have hsome : ∀ {s : Sighting} {d : Declaration}, s.item?.bind Item.organized? = some d →
      s.isOrganized = true ∧ s.footprint = d.footprint ∧ s.stop = d.span.stop := by
    intro s d hd
    refine ⟨by rw [Sighting.isOrganized, hd]; rfl, ?_⟩
    obtain ⟨above, before, first, more, after, rfl, rfl⟩ := Sighting.exists_of_organized hd
    exact ⟨rfl, rfl⟩
  obtain ⟨d, e, hhead, hlast, rfl⟩ := region_eq_some hr
  obtain ⟨ds, hds⟩ := List.head?_eq_some_iff.1 hhead
  obtain ⟨es, hes⟩ := List.getLast?_eq_some_iff.1 hlast
  rw [h.organized_eq] at hds hes
  obtain ⟨a, first, b, rfl, ha, hfirst, -⟩ := List.filterMap_eq_cons_iff.1 hds
  obtain ⟨l₁, l₂, hsplit, -, hl₂⟩ := List.filterMap_eq_append_iff.1 hes
  obtain ⟨a', last, b', rfl, -, hlast', hb'⟩ := List.filterMap_eq_cons_iff.1 hl₂
  obtain ⟨hfo, hff, -⟩ := hsome hfirst
  obtain ⟨hlo, -, hls⟩ := hsome hlast'
  refine ⟨first, last, ⟨hfo, hlo, ⟨a, b, rfl, hnone ha⟩, ⟨l₁ ++ a', b', by simp [hsplit], hnone
    (List.filterMap_eq_nil_iff.1 hb')⟩⟩, by rw [hff, hls]⟩

end Layout

namespace Bounds

variable {ss : List Sighting} {first last : Sighting} (h : Bounds ss first last)

include h

theorem mem_first : first ∈ ss := by
  obtain ⟨a, b, rfl, -⟩ := h.first_split
  simp

theorem mem_last : last ∈ ss := by
  obtain ⟨a, b, rfl, -⟩ := h.last_split
  simp

/-- What is not organized stands before the first declaration or behind it, and so for the last. -/
theorem cases_of_not_organized {s : Sighting} (hs : s ∈ ss) (hnot : s.isOrganized = false) :
    (Before ss s first ∨ Before ss first s) ∧ (Before ss s last ∨ Before ss last s) := by
  have hne : ∀ t : Sighting, t.isOrganized = true → s ≠ t := by
    rintro t ht rfl
    rw [hnot] at ht
    cases ht
  refine ⟨?_, ?_⟩
  · exact (before_cases hs h.mem_first).resolve_left (hne first h.first_organized)
  · exact (before_cases hs h.mem_last).resolve_left (hne last h.last_organized)

end Bounds

/-- A position in a document: the lines above, its line in two parts, and the lines below. -/
def Cut (ls : List Line) (p : Position) (above : List Line) (x y : Line) (below : List Line) :
    Prop :=
  ls = above.reverse ++ (x ++ y) :: below ∧ p = ⟨above.length, x.length⟩

/-- What stands before a declaration and its attributes on their first line. -/
def keptIndent (block : List Line) (before : List Char) : List Char :=
  match block with
  | [] => before
  | top :: _ => top.takeWhile isSpace

theorem Sighting.Lies.cut_headed {above : List Line} {before first : List Char}
    {more : List Line} {after : List Char} {ls : List Line}
    (h : (Sighting.declaration above before first more after).Lies ls) {block above' : List Line}
    (hblock : Headed above before block above') :
    ∃ y below, Cut ls (declared above before first more after).footprint above'
      (keptIndent block before) y below := by
  obtain ⟨below, hls⟩ := h
  cases hcons : block with
  | nil =>
    obtain ⟨y, tl, hy⟩ := exists_rows_eq_cons before first more after
    have habove := hblock.above_eq
    rw [hcons] at habove
    refine ⟨y, tl ++ below, ?_, ?_⟩
    · rw [hls, Sighting.lines, hy]
      simp [Sighting.above, keptIndent, habove]
    · rw [hblock.bare hcons, habove]
      rfl
  | cons top rest =>
    obtain ⟨-, hfoot⟩ := hblock.topped top (by rw [hcons]; rfl)
    refine ⟨top.dropWhile isSpace, rest ++ (rows before first more after ++ below), ?_,
      hfoot first more after⟩
    rw [hls, keptIndent, List.takeWhile_append_dropWhile]
    change above.reverse ++ _ = _
    rw [hblock.above_eq, hcons]
    simp [Sighting.lines]

theorem Sighting.Lies.cut_footprint {above : List Line} {before first : List Char}
    {more : List Line} {after : List Char} {ls : List Line}
    (h : (Sighting.declaration above before first more after).Lies ls) :
    ∃ above' x y below,
      Cut ls (declared above before first more after).footprint above' x y below := by
  obtain ⟨block, above', hblock⟩ := exists_headed above before
  obtain ⟨y, below, hcut⟩ := h.cut_headed hblock
  exact ⟨above', _, y, below, hcut⟩

theorem Sighting.Lies.cut_stop {above : List Line} {before first : List Char}
    {more : List Line} {after : List Char} {ls : List Line}
    (h : (Sighting.declaration above before first more after).Lies ls) :
    ∃ below, Cut ls (placed above before (first :: more)).stop
      ((leadRows before first more).reverse ++ above) (lastRow before first more) after below := by
  obtain ⟨below, hls⟩ := h
  refine ⟨below, ?_, ?_⟩
  · rw [hls, Sighting.lines, rows]
    simp [Sighting.above]
  · rw [placed]
    simp [Nat.add_comm]

section Cut

variable {text : List Char} {p q : Position} {above above' : List Line} {x y x' y' : Line}
  {below below' : List Line}

theorem Cut.charsBefore_le (h : Cut (lines text) p above x y below) :
    charsBefore text p ≤ text.length := by
  obtain ⟨hlines, rfl⟩ := h
  have hlength := congrArg List.length (eq_of_lines hlines)
  rw [List.length_append] at hlength
  rw [charsBefore_eq hlines]
  omega

/-- Places in the text come in the order of their positions. -/
theorem Cut.charsBefore_mono (h : Cut (lines text) p above x y below)
    (h' : Cut (lines text) q above' x' y' below') (hle : p ≤ q) :
    charsBefore text p ≤ charsBefore text q := by
  obtain ⟨hlines, rfl⟩ := h
  obtain ⟨hlines', rfl⟩ := h'
  rw [charsBefore_eq hlines, charsBefore_eq hlines', length_unlines_append, length_unlines_append]
  have hboth := hlines.symm.trans hlines'
  simp only [Position.le_def] at hle
  rcases hle with hlt | ⟨heq, hcol⟩
  · -- the line of the first position stands above that of the other
    have hprefix : above.reverse ++ [x ++ y] <+: lines text :=
      ⟨below, by rw [List.append_assoc]; exact hlines.symm⟩
    obtain ⟨part, hpart⟩ : above.reverse ++ [x ++ y] <+: above'.reverse := by
      refine List.prefix_of_prefix_length_le hprefix ⟨(x' ++ y') :: below', hlines'.symm⟩ ?_
      simp only [List.length_append, List.length_reverse, List.length_singleton]
      omega
    have hsize := congrArg size hpart
    rw [size_append, size_append, size_cons, List.length_append] at hsize
    omega
  · have habove : above.reverse = above'.reverse := by
      refine (List.append_inj hboth ?_).1
      rw [List.length_reverse, List.length_reverse]
      omega
    rw [habove]
    omega

end Cut

/-- The region of a document cuts it in three. -/
theorem Layout.cut_region {ls : List Line} {ss : List Sighting} (h : Layout ls ss) {r : Span}
    (hr : (survey ls).region = some r) :
    r.start ≤ r.stop ∧ (∃ above x y below, Cut ls r.start above x y below) ∧
      ∃ above x y below, Cut ls r.stop above x y below := by
  obtain ⟨first, last, hbounds, rfl⟩ := h.exists_bounds hr
  have hle : first.start ≤ last.stop := by
    obtain ⟨a, b, hss, hnone⟩ := hbounds.first_split
    have hlast : last ∈ a ++ first :: b := hss ▸ hbounds.mem_last
    rcases List.mem_append.1 hlast with hmem | hmem
    · have horganized := List.any_eq_false.1 hnone last hmem
      exact absurd hbounds.last_organized horganized
    · rcases List.mem_cons.1 hmem with rfl | hmem
      · exact last.start_le_stop
      · have hstop := h.stop_le_start (hss ▸ before_of_mem_right hmem)
        exact Position.le_trans first.start_le_stop (Position.le_trans hstop last.start_le_stop)
  obtain ⟨above, before, d, more, after, rfl, -⟩ :=
    Sighting.exists_of_isOrganized hbounds.first_organized
  obtain ⟨above', before', d', more', after', rfl, -⟩ :=
    Sighting.exists_of_isOrganized hbounds.last_organized
  refine ⟨Position.le_trans (footprint_le_start above before d more after) hle,
    (h.lies hbounds.mem_first).cut_footprint, ?_⟩
  obtain ⟨below, hcut⟩ := (h.lies hbounds.mem_last).cut_stop
  exact ⟨_, _, _, below, hcut⟩

end TidyUse.Document
