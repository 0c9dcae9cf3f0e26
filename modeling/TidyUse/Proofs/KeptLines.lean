import TidyUse.Proofs.Keeping

/-!
# Organizing loses no line

* `Keeps` : a text to keep, given by the parts of lines that it is made of; `keeps_comment`,
  `keeps_declaration`;
* `Inner` : a row of the region that no statement touches, and what stands there;
* `organize_keeps_lines` : its line is found again in the organized document.
-/

namespace TidyUse.Document

open Text

/-! ## Kept text as lines -/

theorem rows_ne_nil (before first : List Char) (more : List Line) (after : List Char) :
    rows before first more after ≠ [] := by
  simp [rows]

theorem fringe_cons_of_ne (ws l : List Char) {ls : List Line} (h : ls ≠ []) (after : List Char) :
    fringe ws (l :: ls) after = (ws ++ l) :: fringe [] ls after := by
  obtain ⟨next, more, rfl⟩ := List.exists_cons_of_ne_nil h
  rw [fringe_cons, rows_cons, fringe_cons]

theorem fringe_rows (ws before first : List Char) (more : List Line) (after after' : List Char) :
    fringe ws (rows before first more after) after' =
      rows (ws ++ before) first more (after ++ after') := by
  induction more generalizing ws before first with
  | nil => simp [rows_nil, fringe_cons]
  | cons next more ih =>
    rw [rows_cons, rows_cons, fringe_cons_of_ne _ _ (rows_ne_nil _ _ _ _), ih, List.append_assoc,
      List.nil_append]

theorem stop_placed_rows (above : List Line) (ws before first : List Char) (more : List Line)
    (after : List Char) :
    (placed above ws (rows before first more after)).stop =
      ⟨(above.length + more.length : Nat), (lastRow (ws ++ before) first more ++ after).length⟩ := by
  have hlast : ∀ (ws before first : List Char) (more : List Line),
      ∃ l ms, rows before first more after = l :: ms ∧ ms.length = more.length ∧
        lastRow ws l ms = lastRow (ws ++ before) first more ++ after := by
    intro ws before first more
    induction more generalizing ws before first with
    | nil => exact ⟨_, _, rows_nil .., rfl, by simp [lastRow]⟩
    | cons next more ih =>
      obtain ⟨l, ms, hrows, hlen, hrow⟩ := ih [] [] next
      refine ⟨before ++ first, l :: ms, by rw [rows_cons, hrows], by simp [hlen], ?_⟩
      rw [lastRow, hrow]
      rfl
  obtain ⟨l, ms, hrows, hlen, hrow⟩ := hlast ws before first more
  rw [hrows, placed, hlen, hrow]

/-- A text to keep, given by the parts of lines that it is made of. -/
def Keeps (ls : List Line) (k : Span) (parts : List Line) : Prop :=
  parts ≠ [] ∧ ∃ above ws after below, k = placed above ws parts ∧
    ls = above.reverse ++ (fringe ws parts after ++ below)

theorem Keeps.excerpt_eq {text : List Char} {k : Span} {parts : List Line}
    (h : Keeps (lines text) k parts) : excerpt text k = unlines parts := by
  obtain ⟨hne, above, ws, after, below, rfl, hlines⟩ := h
  exact excerpt_placed hne hlines

theorem Keeps.lines_excerpt {text : List Char} {k : Span} {parts : List Line}
    (h : Keeps (lines text) k parts) : lines (excerpt text k) = parts := by
  rw [h.excerpt_eq]
  obtain ⟨hne, above, ws, after, below, rfl, hlines⟩ := h
  refine lines_unlines (fun l hl => ?_) hne
  obtain ⟨u, v, hmem, -⟩ := exists_mem_fringe ws hl after
  have hline : u ++ l ++ v ∈ lines text := by
    rw [hlines]
    exact List.mem_append_right _ (List.mem_append_left _ hmem)
  exact fun hn => newline_not_mem hline (List.mem_append_left _ (List.mem_append_right _ hn))

theorem span_commentItem (above : List Line) (line : Line) (more : List Line) :
    (commentItem above line more).span =
      placed above (line.takeWhile isSpace) (line.dropWhile isSpace :: more) := by
  have hlast : lastRow (line.takeWhile isSpace) (line.dropWhile isSpace) more =
      (line :: more).getLastD [] := by
    have hrows := rows_open (line.takeWhile isSpace) (line.dropWhile isSpace) more
    rw [List.takeWhile_append_dropWhile, rows, List.append_nil] at hrows
    rw [← hrows, List.getLastD_eq_getLast?, List.getLast?_append]
    simp
  rw [placed, hlast]
  rfl

theorem keeps_comment {above : List Line} {line : Line} {more ls : List Line}
    (h : (Sighting.comment above line more).Lies ls) {k : Span}
    (hk : (Sighting.comment above line more).kept? = some k) :
    Keeps ls k (line.dropWhile isSpace :: more) := by
  obtain ⟨below, hls⟩ := h
  cases hk
  refine ⟨List.cons_ne_nil _ _, above, line.takeWhile isSpace, [], below,
    span_commentItem above line more, ?_⟩
  rw [hls, fringe_cons, rows_open, List.takeWhile_append_dropWhile]
  rfl

/-- What follows a declaration and is kept with it. -/
def keptRest (after : List Char) : List Char :=
  if Trailing.ofRest after = .comment then after else []

/-- Rows without the white space before them and behind them. -/
theorem exists_trim_rows {before first : List Char} {more : List Line} {after rest : List Char}
    {j : Nat} {l : Line} (hl : (rows before first more (rest ++ after))[j]? = some l)
    (hbefore : j = 0 → isBlank before = true)
    (hafter : j = more.length → isBlank after = true) :
    ∃ p ∈ rows [] first more rest, trim p = trim l := by
  induction more generalizing before first j with
  | nil =>
    rw [rows_nil, List.getElem?_singleton] at hl
    split at hl
    · rename_i hj
      cases hl
      refine ⟨[] ++ first ++ rest, by simp [rows_nil], ?_⟩
      rw [List.nil_append, ← List.append_assoc, trim_append_right (hafter hj), List.append_assoc,
        trim_append_left (hbefore hj)]
    · cases hl
  | cons next more ih =>
    rw [rows_cons] at hl
    cases j with
    | zero =>
      cases hl
      refine ⟨[] ++ first, by simp [rows_cons], ?_⟩
      rw [List.nil_append, trim_append_left (hbefore rfl)]
    | succ j =>
      rw [List.getElem?_cons_succ] at hl
      obtain ⟨p, hp, htrim⟩ := ih hl (fun _ => rfl) fun hj => hafter (by rw [hj, List.length_cons])
      exact ⟨p, by rw [rows_cons]; exact List.mem_cons_of_mem _ hp, htrim⟩

theorem exists_rows_trim {before first : List Char} {more : List Line} {after : List Char}
    (hbefore : isBlank before = true) {p : Line} (hp : p ∈ rows [] first more after) :
    ∃ q ∈ rows before first more after, trim q = trim p := by
  cases more with
  | nil =>
    rw [rows_nil, List.mem_singleton] at hp
    refine ⟨before ++ first ++ after, by simp [rows_nil], ?_⟩
    rw [hp, List.append_assoc, trim_append_left hbefore, List.nil_append]
  | cons next more =>
    rw [rows_cons] at hp
    rw [rows_cons]
    rcases List.mem_cons.1 hp with hp | hp
    · refine ⟨before ++ first, List.mem_cons_self, ?_⟩
      rw [hp, trim_append_left hbefore, List.nil_append]
    · exact ⟨p, List.mem_cons_of_mem _ hp, rfl⟩

/-- The parts of the kept text of a declaration below a block with its attributes. It starts at the
first of these, and the rows below that are kept as they are. -/
def keptParts (block : List Line) (before first : List Char) (more : List Line)
    (rest : List Char) : List Line :=
  match block with
  | [] => rows [] first more rest
  | top :: tail => top.dropWhile isSpace :: (tail ++ rows before first more rest)

theorem keptParts_ne_nil (block : List Line) (before first : List Char) (more : List Line)
    (rest : List Char) : keptParts block before first more rest ≠ [] := by
  cases block with
  | nil => exact rows_ne_nil _ _ _ _
  | cons top tail => exact List.cons_ne_nil _ _

/-- Where the kept text of a declaration stands. -/
theorem kept_declared {above : List Line} {before first : List Char} {more : List Line}
    {after : List Char} {k : Span} (hk : (declared above before first more after).kept? = some k)
    {block above' : List Line} (hblock : Headed above before block above') :
    k = placed above' (keptIndent block before)
      (keptParts block before first more (keptRest after)) := by
  obtain ⟨-, hstart, hstop⟩ := Declaration.kept?_eq_some hk
  have hend : k.stop = ⟨(above.length + more.length : Nat),
      (lastRow before first more ++ keptRest after).length⟩ := by
    change Trailing.ofRest after = .comment ∧ _ ∨ Trailing.ofRest after ≠ .comment ∧ _ at hstop
    rcases hstop with ⟨hcomment, hstop⟩ | ⟨hcomment, hstop⟩
    · rw [hstop, keptRest, if_pos hcomment]
      rfl
    · rw [hstop, keptRest, if_neg hcomment, List.append_nil]
      rfl
  have hk' : k = ⟨k.start, k.stop⟩ := rfl
  cases hcons : block with
  | nil =>
    have hstop' := stop_placed_rows above before [] first more (keptRest after)
    rw [List.append_nil, ← hend] at hstop'
    have habove : above = above' := by rw [hblock.above_eq, hcons]; rfl
    rw [hk', hstart, hblock.bare hcons, ← hstop', ← start_placed above before
      (rows [] first more (keptRest after)), habove]
    rfl
  | cons top tail =>
    have htop : top.takeWhile isSpace ++ top.dropWhile isSpace = top :=
      List.takeWhile_append_dropWhile
    have habove : above = tail.reverse ++ top :: above' := by
      rw [hblock.above_eq, hcons]
      simp
    have hstop' := stop_placed_append above' (top.takeWhile isSpace)
      (List.cons_ne_nil (top.dropWhile isSpace) tail)
      (rows_ne_nil before first more (keptRest after))
    rw [fringe_cons, rows_open, htop, List.reverse_cons, List.append_assoc, List.singleton_append,
      ← habove, stop_placed_rows, List.nil_append, ← hend] at hstop'
    obtain ⟨-, hfoot⟩ := hblock.topped top (by rw [hcons]; rfl)
    rw [hk', hstart, hfoot, ← hstop']
    rfl

/-- The kept text of a declaration: its attributes and its own lines. -/
theorem keeps_declaration {above : List Line} {before first : List Char} {more : List Line}
    {after : List Char} {ls : List Line}
    (h : (Sighting.declaration above before first more after).Lies ls) {k : Span}
    (hk : (Sighting.declaration above before first more after).kept? = some k)
    {block above' : List Line} (hblock : Headed above before block above') :
    Keeps ls k (keptParts block before first more (keptRest after)) := by
  obtain ⟨below, hls⟩ := h
  obtain ⟨rest, hrest⟩ : ∃ rest, keptRest after ++ rest = after := by
    rw [keptRest]
    split
    · exact ⟨[], List.append_nil _⟩
    · exact ⟨after, rfl⟩
  refine ⟨keptParts_ne_nil _ _ _ _ _, above', keptIndent block before, rest, below,
    kept_declared hk hblock, ?_⟩
  cases hcons : block with
  | nil =>
    have habove : above = above' := by rw [hblock.above_eq, hcons]; rfl
    rw [keptParts, keptIndent, fringe_rows, List.append_nil, hrest, hls, ← habove]
    rfl
  | cons top tail =>
    have htop : top.takeWhile isSpace ++ top.dropWhile isSpace = top :=
      List.takeWhile_append_dropWhile
    rw [keptParts, keptIndent, ← List.cons_append,
      fringe_append _ (List.cons_ne_nil _ _) (rows_ne_nil _ _ _ _), fringe_cons, rows_open,
      htop, fringe_rows, List.nil_append, hrest, hls]
    change above.reverse ++ (rows before first more after ++ below) = _
    rw [hblock.above_eq, hcons]
    simp

/-- The lines of the attributes and of the declaration are among these parts, but for the white
space around them. -/
theorem exists_mem_keptParts {above : List Line} {before : List Char} {block above' : List Line}
    (hblock : Headed above before block above') (first : List Char) (more : List Line)
    (rest : List Char) :
    (∀ l ∈ block, ∃ q ∈ keptParts block before first more rest, trim q = trim l) ∧
      ∀ p ∈ rows [] first more rest,
        ∃ q ∈ keptParts block before first more rest, trim q = trim p := by
  cases hcons : block with
  | nil => exact ⟨by simp, fun p hp => ⟨p, hp, rfl⟩⟩
  | cons top tail =>
    have hws : isBlank (top.takeWhile isSpace) = true := List.all_takeWhile
    have htop : top.takeWhile isSpace ++ top.dropWhile isSpace = top :=
      List.takeWhile_append_dropWhile
    refine ⟨fun l hl => ?_, fun p hp => ?_⟩
    · rcases List.mem_cons.1 hl with rfl | hl
      · refine ⟨_, List.mem_cons_self, ?_⟩
        nth_rewrite 2 [← htop]
        rw [trim_append_left hws]
      · exact ⟨l, List.mem_cons_of_mem _ (List.mem_append_left _ hl), rfl⟩
    · obtain ⟨q, hq, htrim⟩ := exists_rows_trim (hblock.blank (by simp [hcons])) hp
      exact ⟨q, List.mem_cons_of_mem _ (List.mem_append_right _ hq), htrim⟩

/-! ## What follows a declaration -/

theorem Step.of_declaration {st st' : State} {ss : List Sighting} (h : Step st ss st')
    {before rest : List Char} {below : List Line}
    (hplace : st.place = .declaration before rest below) :
    ∃ e, ss = [e] ∧ e.isDeclaration = true ∧ e.top = st.above.length := by
  cases h with
  | skip _ => cases hplace
  | comment _ => cases hplace
  | start _ => cases hplace
  | finish _ _ => exact ⟨_, rfl, rfl, rfl⟩
  | next _ _ _ => exact ⟨_, rfl, rfl, rfl⟩
  | stop _ _ => exact ⟨_, rfl, rfl, rfl⟩

/-- If a survey goes on behind a declaration, then with the next line or with a declaration on the
same row. -/
theorem Run.behind {st st' : State} {ss ss' : List Sighting} {above : List Line}
    {before first : List Char} {more : List Line} {after : List Char}
    (h : Run st (ss ++ .declaration above before first more after :: ss') st') (hne : ss' ≠ []) :
    (∀ rest, after = keptRest after ++ rest → isBlank rest = true) ∨
      ∃ e ∈ ss', e.isDeclaration = true ∧ e.top = above.length + more.length := by
  obtain ⟨st₁, st₂, -, hstep, hrest⟩ := h.split
  cases hstep with
  | finish stands trailing =>
    refine Or.inl fun rest hrest => ?_
    rw [keptRest] at hrest
    split at hrest
    · rw [List.self_eq_append_right.1 hrest]
      rfl
    · rename_i hcomment
      rw [← List.nil_append rest, ← hrest]
      by_contra hblank
      refine hcomment ?_
      rw [Trailing.ofRest, if_neg hblank, if_pos (trailing.resolve_left hblank)]
  | next stands blank opens =>
    cases hrest with
    | nil => exact absurd rfl hne
    | cons step run =>
      obtain ⟨e, rfl, hdecl, htop⟩ := step.of_declaration rfl
      refine Or.inr ⟨e, by simp, hdecl, ?_⟩
      rw [htop, List.length_append, List.length_reverse, length_leadRows, Nat.add_comm]
  | stop stands trailing =>
    cases hrest with
    | nil => exact absurd rfl hne
    | cons step run => cases step

theorem Sighting.exists_kept {above : List Line} {before first : List Char} {more : List Line}
    {after : List Char}
    (h : (Sighting.declaration above before first more after).isOrganized = false) :
    ∃ k, (Sighting.declaration above before first more after).kept? = some k := by
  rw [Sighting.isOrganized_declaration] at h
  show ∃ k, (declared above before first more after).kept? = some k
  rw [Declaration.kept?, h]
  split
  · exact ⟨_, rfl⟩
  · exact ⟨_, rfl⟩

/-! ## Rows of the region -/

/-- A row between the first and the last declaration to organize that none of them touches. -/
structure Inner (ls : List Line) (ss : List Sighting) (first last : Sighting) (i : Nat)
    (l : Line) : Prop where
  line : ls[i]? = some l
  nonblank : isBlank l = false
  free : ∀ e ∈ ss, e.isOrganized = true → i < e.top ∨ e.bottom < i
  low : first.footprint.line ≤ i
  high : i < last.top

namespace Layout

section Inner

theorem exists_of_mem_declarations {ls : List Line} {ss : List Sighting} (h : Layout ls ss)
    {d : Declaration} (hd : d ∈ (survey ls).declarations) :
    ∃ above before first more after, .declaration above before first more after ∈ ss ∧
      d = declared above before first more after := by
  obtain ⟨item, hitem, hd⟩ := List.mem_filterMap.1 hd
  rw [h.items] at hitem
  obtain ⟨s, hs, hitem⟩ := List.mem_filterMap.1 hitem
  cases s with
  | passed _ _ => cases hitem
  | comment _ _ _ => cases hitem; cases hd
  | declaration above before first more after =>
    cases hitem
    cases hd
    exact ⟨above, before, first, more, after, hs, rfl⟩

/-- A line without interest is no part of an item. -/
theorem outside_of_passed {ls : List Line} {ss : List Sighting} (h : Layout ls ss)
    {above : List Line} {line : Line} (hs : .passed above line ∈ ss) :
    ∀ j ∈ (survey ls).items,
      (above.length : Int) < j.span.start.line ∨ j.span.stop.line < above.length := by
  intro j hj
  rw [h.items] at hj
  obtain ⟨t, ht, hitem⟩ := List.mem_filterMap.1 hj
  have horder : (Sighting.passed above line).stop ≤ t.start ∨
      t.stop ≤ (Sighting.passed above line).start := by
    rcases before_cases hs ht with rfl | hbefore | hbefore
    · cases hitem
    · exact Or.inl (h.stop_le_start hbefore)
    · exact Or.inr (h.stop_le_start hbefore)
  cases t with
  | passed _ _ => cases hitem
  | comment above₁ line₁ more₁ =>
    cases hitem
    simp only [Sighting.stop, Sighting.start, Position.le_def] at horder
    simp only [Item.span, commentItem]
    omega
  | declaration above₁ before₁ d₁ more₁ after₁ =>
    cases hitem
    obtain ⟨x, hx⟩ := (h.ends ht).last before₁
    have hlen := congrArg List.length hx
    rw [List.length_append, List.length_singleton] at hlen
    simp only [Sighting.stop, Sighting.start, placed, Position.le_def] at horder
    simp only [Item.span, declared, placed]
    omega

theorem below_first {ls : List Line} {ss : List Sighting} (h : Layout ls ss)
    (hapart : (survey ls).Apart ls) {first last : Sighting} (hb : Bounds ss first last) :
    (preambleLength ls : Int) ≤ first.footprint.line := by
  obtain ⟨above, before, d, more, after, rfl, -⟩ :=
    Sighting.exists_of_isOrganized hb.first_organized
  exact hapart.below _ (Survey.mem_declarations (h.mem_items hb.mem_first rfl))

variable {ls : List Line} {ss : List Sighting} (h : Layout ls ss) (hapart : (survey ls).Apart ls)
  {first last : Sighting} (hb : Bounds ss first last) {i : Nat} {l : Line}
  (hi : Inner ls ss first last i l)

include h hapart hb hi

/-- A declaration that reaches to the row stands behind the first one. -/
theorem first_before_of_reaches {above : List Line} {before d : List Char} {more : List Line}
    {after : List Char} (hd : .declaration above before d more after ∈ ss)
    (hnot : (Sighting.declaration above before d more after).isOrganized = false)
    (hrow : i ≤ above.length + more.length) :
    Before ss first (.declaration above before d more after) := by
  obtain ⟨above₁, before₁, first₁, more₁, after₁, rfl, -⟩ :=
    Sighting.exists_of_isOrganized hb.first_organized
  have hlow : (declared above₁ before₁ first₁ more₁ after₁).footprint.line ≤ i := hi.low
  refine (hb.cases_of_not_organized hd hnot).1.resolve_left fun hbefore => ?_
  -- otherwise it ends on the row, and the first declaration starts there
  have hle := h.le_footprint hb.mem_first rfl (hapart.outside_upTo _) hbefore
    (h.stop_le_start hbefore) rfl
  simp only [Sighting.stop, placed, Position.le_def] at hle
  obtain ⟨block, above', hblock⟩ := exists_headed above₁ before₁
  have hfoot := hblock.line_footprint first₁ more₁ after₁
  rcases eq_or_ne block [] with hnil | hne
  · have hlen := hblock.length_above
    rw [hnil, List.length_nil] at hlen
    have hfree := hi.free _ hb.mem_first hb.first_organized
    simp only [Sighting.bottom, Sighting.top, Sighting.above] at hfree
    omega
  · have hlt := h.bottom_lt_block hb.mem_first hblock hne rfl (hapart.outside_upTo _) hbefore
    simp only [Sighting.bottom, Sighting.top, Sighting.above, Sighting.height] at hlt
    omega

/-- Then its attributes are in the region. -/
theorem footprint_le_of_reaches {above : List Line} {before d : List Char} {more : List Line}
    {after : List Char} (hd : .declaration above before d more after ∈ ss)
    (hnot : (Sighting.declaration above before d more after).isOrganized = false)
    (hrow : i ≤ above.length + more.length) :
    first.footprint ≤ (declared above before d more after).footprint := by
  have hbefore := h.first_before_of_reaches hapart hb hi hd hnot hrow
  obtain ⟨above₁, before₁, first₁, more₁, after₁, rfl, -⟩ :=
    Sighting.exists_of_isOrganized hb.first_organized
  have hle := h.le_footprint hd rfl (hapart.outside_upTo _) hbefore (h.stop_le_start hbefore) rfl
  exact Position.le_trans (footprint_le_start above₁ before₁ first₁ more₁ after₁)
    (Position.le_trans (Sighting.start_le_stop (.declaration above₁ before₁ _ _ after₁)) hle)

omit hb in
/-- No two declarations share the row. -/
theorem not_before_on_row {d e : Sighting} (hd : d.isDeclaration = true)
    (he : e.isDeclaration = true) (hbefore : Before ss d e) (hdi : d.bottom = i)
    (hei : e.top = i) : False := by
  obtain ⟨a, b, c, hss⟩ := hbefore
  have hdmem : d ∈ ss := by simp [hss]
  have hemem : e ∈ ss := by simp [hss]
  have hfree : ∀ s ∈ ss, s.top ≤ i → i ≤ s.bottom → s.isOrganized = false := by
    intro s hs htop hbottom
    by_contra horg
    rcases hi.free s hs (Bool.eq_true_of_not_eq_false horg) with hlt | hlt <;> omega
  have hdnot := hfree d hdmem (hdi ▸ d.top_le_bottom) hdi.ge
  have henot := hfree e hemem hei.le (hei ▸ e.top_le_bottom)
  have hlt := h.start_lt_stop hdmem hd
  have hle := h.stop_le_start ⟨a, b, c, hss⟩
  cases d with
  | passed _ _ => cases hd
  | comment _ _ _ => cases hd
  | declaration above before first more after =>
    cases e with
    | passed _ _ => cases he
    | comment _ _ _ => cases he
    | declaration above₁ before₁ first₁ more₁ after₁ =>
      rw [Sighting.isOrganized_declaration] at hdnot henot
      have horder : (declared above before first more after).span.start <
          (declared above₁ before₁ first₁ more₁ after₁).span.start := by
        simp only [Position.lt_def, Position.le_def, Sighting.start, Sighting.stop, declared,
          start_placed] at hlt hle ⊢
        omega
      have halone := hapart.alone _ (Survey.mem_declarations (h.mem_items hdmem rfl)) _
        (Survey.mem_declarations (h.mem_items hemem rfl)) hdnot henot horder
      simp only [declared, placed] at halone
      simp only [Sighting.bottom, Sighting.top, Sighting.above, Sighting.height] at hdi hei
      omega

omit hb in
/-- A declaration whose attributes start above the row stands before the last one. -/
theorem before_last_of_footprint_le {above : List Line} {before d : List Char} {more : List Line}
    {after : List Char} (hb : Bounds ss first last)
    (hd : .declaration above before d more after ∈ ss)
    (hnot : (Sighting.declaration above before d more after).isOrganized = false)
    (hrow : (declared above before d more after).footprint.line ≤ i) :
    Before ss (.declaration above before d more after) last := by
  obtain ⟨above₁, before₁, last₁, more₁, after₁, rfl, -⟩ :=
    Sighting.exists_of_isOrganized hb.last_organized
  refine (hb.cases_of_not_organized hd hnot).2.resolve_right fun hbefore => ?_
  have hle := h.le_footprint hd rfl (hapart.outside_upTo _) hbefore (h.stop_le_start hbefore) rfl
  have hhigh := hi.high
  simp only [Sighting.stop, placed, Position.le_def, Sighting.top, Sighting.above] at hle hhigh
  omega

omit hapart in
/-- A comment on the row stands before the last declaration. -/
theorem before_last_of_comment {above : List Line} {line : Line} {more : List Line}
    (hs : .comment above line more ∈ ss) (hrow : above.length ≤ i) :
    Before ss (.comment above line more) last := by
  obtain ⟨above₁, before₁, last₁, more₁, after₁, rfl, -⟩ :=
    Sighting.exists_of_isOrganized hb.last_organized
  refine (hb.cases_of_not_organized hs rfl).2.resolve_right fun hbefore => ?_
  have hle := h.stop_le_start hbefore
  have hhigh := hi.high
  simp only [Sighting.stop, Sighting.start, placed, Position.le_def, Sighting.top,
    Sighting.above] at hle hhigh
  omega

/-- A comment that reaches to the row starts in the region. -/
theorem footprint_le_of_comment {above : List Line} {line : Line} {more : List Line}
    (hs : .comment above line more ∈ ss) (hrow : i ≤ above.length + more.length) :
    first.footprint ≤ ⟨above.length, indent line⟩ := by
  obtain ⟨above₁, before₁, first₁, more₁, after₁, rfl, -⟩ :=
    Sighting.exists_of_isOrganized hb.first_organized
  have hlow : (declared above₁ before₁ first₁ more₁ after₁).footprint.line ≤ i := hi.low
  have hstart := footprint_le_start above₁ before₁ first₁ more₁ after₁
  rcases (hb.cases_of_not_organized hs rfl).1 with hbefore | hbefore
  · have horder := h.stop_le_start hbefore
    simp only [Sighting.stop, Sighting.start, Position.le_def] at horder
    refine (hapart.outside _ (Survey.mem_declarations (h.mem_items hb.mem_first rfl)) _
      (h.mem_items hs rfl)).resolve_right fun hle => ?_
    -- otherwise it ends on the row, before an attribute that opens the same row
    obtain ⟨block, above', hblock⟩ := exists_headed above₁ before₁
    have hlen := hblock.length_above
    have hfoot := hblock.line_footprint first₁ more₁ after₁
    simp only [Item.span, commentItem, Position.le_def] at hle
    cases hcons : block with
    | nil =>
      rw [hcons, List.length_nil] at hlen
      omega
    | cons top rest =>
      obtain ⟨-, htop⟩ := hblock.topped top (by rw [hcons]; rfl)
      rw [htop] at hle
      simp only at hle
      have hlast := (h.lies hs).getElem? (Sighting.top_le_bottom _) (Nat.le_refl _)
      have hline' : (line :: more)[more.length]? = some ((line :: more).getLastD []) := by
        simp [List.getLastD_eq_getLast?, List.getLast?_eq_getElem?]
      rw [Sighting.bottom, Nat.add_sub_cancel_left] at hlast
      change ls[above.length + more.length]? = (line :: more)[more.length]? at hlast
      rw [hline'] at hlast
      obtain ⟨below, hls⟩ := h.lies hb.mem_first
      have hrowtop := hblock.getElem?_top hls (by rw [hcons]; rfl)
      have hi' : i = above.length + more.length := by omega
      have hi'' : i = above'.length := by omega
      have hline := hi.line
      rw [hi'', hrowtop] at hline
      have hindent := indent_lt hi.nonblank []
      rw [List.append_nil, ← Option.some.inj hline] at hindent
      rw [← hi', hi'', hrowtop] at hlast
      rw [← Option.some.inj hlast] at hle
      omega
  · have horder := h.stop_le_start hbefore
    have hmid := Sighting.start_le_stop (.declaration above₁ before₁ first₁ more₁ after₁)
    simp only [Sighting.start, Sighting.footprint, Position.le_def] at *
    omega

end Inner

section Found

variable {text : List Char} {ss : List Sighting} (h : Layout (lines text) ss)
  (hapart : (survey (lines text)).Apart (lines text)) {first last : Sighting}
  (hb : Bounds ss first last)
  (hr : (survey (lines text)).region = some ⟨first.footprint, last.stop⟩)
  (deps : Option Dependencies)

include h

omit hb hr in
theorem kept_start_lt {s t : Sighting} (hst : Before ss s t) {k : Span} (hk : s.kept? = some k) :
    k.start < t.start := by
  have hle := h.stop_le_start hst
  cases s with
  | passed _ _ => cases hk
  | comment above line more =>
    cases hk
    simp only [Sighting.stop, Position.le_def, Position.lt_def] at *
    omega
  | declaration above before first more after =>
    have hmem : .declaration above before first more after ∈ ss := hst.mem_left
    have hlt := h.start_lt_stop hmem rfl
    have hbounds := (Sighting.kept_bounds rfl hk).1
    simp only [Position.le_def, Position.lt_def] at *
    omega

include hb hr

/-- Kept text between the first declaration and the last is among the new lines. -/
theorem mem_regionLines {s : Sighting} {k : Span} (hk : s.kept? = some k)
    (hkept : k ∈ (survey (lines text)).preserved) (hstart : first.footprint ≤ k.start)
    (hlast : Before ss s last) {p : Line} (hp : p ∈ lines (excerpt text k)) :
    p ∈ regionLines deps text (scan text).value := by
  obtain ⟨above, before, last, more, after, rfl, hstatement⟩ :=
    Sighting.exists_of_isOrganized hb.last_organized
  obtain ⟨t, ht, j, hj⟩ := exists_mem_statementsFrom (h.mem_items hb.mem_last rfl) hstatement 0 false
  have hspan := (Declaration.statement?_eq_some hj).2.2.2.1
  have horder := Sighting.start_le_stop (.declaration above before last more after)
  have hin : (⟨first.footprint, (Sighting.declaration above before last more after).stop⟩ :
      Span).contains k = true :=
    contains_iff.2 ⟨hstart, Position.le_trans (h.kept_stop_le_start hlast hk) horder⟩
  exact mem_regionLines_of_kept deps hkept hr hin ⟨t, ht, _, hspan, h.kept_start_lt hlast hk⟩ hp

variable {i : Nat} {l : Line} (hi : Inner (lines text) ss first last i l)

include hapart hi

/-- What is kept of a declaration around the row is among the new lines. -/
theorem exists_of_kept_declaration {above : List Line} {before d : List Char} {more : List Line}
    {after : List Char} (hd : .declaration above before d more after ∈ ss)
    (hnot : (Sighting.declaration above before d more after).isOrganized = false)
    (hrow : (declared above before d more after).footprint.line ≤ i)
    (hrow' : i ≤ above.length + more.length) :
    ∃ p ∈ regionLines deps text (scan text).value, trim p = trim l := by
  obtain ⟨k, hk⟩ := Sighting.exists_kept hnot
  have hkept := h.mem_preserved hd rfl (hapart.outside_upTo _) hk
  have hstart : first.footprint ≤ k.start := by
    rw [(Declaration.kept?_eq_some hk).2.1]
    exact h.footprint_le_of_reaches hapart hb hi hd hnot hrow'
  have hlast := h.before_last_of_footprint_le hapart hi hb hd hnot hrow
  obtain ⟨block, above', hblock⟩ := exists_headed above before
  obtain ⟨hheads, hrows⟩ := exists_mem_keptParts hblock d more (keptRest after)
  have hnew : ∀ q ∈ keptParts block before d more (keptRest after),
      q ∈ regionLines deps text (scan text).value := by
    intro q hq
    rw [← (keeps_declaration (h.lies hd) hk hblock).lines_excerpt] at hq
    exact h.mem_regionLines hb hr deps hk hkept hstart hlast hq
  by_cases hin : i < above.length
  · -- the row is one of its attributes or stands between them
    obtain ⟨below, hls⟩ := h.lies hd
    have hfoot := hblock.line_footprint d more after
    obtain ⟨l', hl', hline⟩ := hblock.getElem? hls (by omega) hin
    obtain rfl : l = l' := Option.some.inj (hi.line.symm.trans hline)
    obtain ⟨q, hq, htrim⟩ := hheads l hl'
    exact ⟨q, hnew q hq, htrim⟩
  · -- the row is its own: nothing but white space stands around it there
    have hline := (h.lies hd).getElem? (Nat.le_of_not_lt hin) hrow'
    rw [hi.line] at hline
    obtain ⟨rest, hrest⟩ : ∃ rest, after = keptRest after ++ rest := by
      rw [keptRest]
      split
      · exact ⟨[], (List.append_nil _).symm⟩
      · exact ⟨after, rfl⟩
    change some l = (rows before d more after)[i - above.length]? at hline
    nth_rewrite 1 [hrest] at hline
    obtain ⟨st, hrun⟩ := h.run
    have hbefore : i - above.length = 0 → isBlank before = true := by
      intro hzero
      obtain ⟨a, b, c, hss⟩ := h.first_before_of_reaches hapart hb hi hd hnot hrow'
      have hsplit : ss = (a ++ first :: b) ++ .declaration above before d more after :: c := by
        rw [hss]
        simp
      obtain ⟨line, -, ⟨-, hblank⟩ | ⟨-, e, he, hdecl, hbottom⟩⟩ :=
        (hsplit ▸ hrun).line_of_declaration
      · exact hblank (by simp [hb.first_organized])
      · have hshared : Before ss e (.declaration above before d more after) :=
          hsplit ▸ before_of_mem_left he
        exact (h.not_before_on_row hapart hi hdecl rfl hshared (by omega)
          (show above.length = i by omega)).elim
    have hafter : i - above.length = more.length → isBlank rest = true := by
      intro hlen
      obtain ⟨a, b, c, hss⟩ := hlast
      rcases (hss ▸ hrun).behind (by simp) with hblank | ⟨e, he, hdecl, htop⟩
      · exact hblank rest hrest
      · have hshared : Before ss (.declaration above before d more after) e :=
          hss ▸ before_of_mem_right he
        exact (h.not_before_on_row hapart hi rfl hdecl hshared
          (show above.length + more.length = i by omega) (by omega)).elim
    obtain ⟨p, hp, htrim⟩ := exists_trim_rows hline.symm hbefore hafter
    obtain ⟨q, hq, hqtrim⟩ := hrows p hp
    exact ⟨q, hnew q hq, hqtrim.trans htrim⟩

/-- A comment on the row is among the new lines, by itself or with a kept declaration below it. -/
theorem exists_of_comment {above : List Line} {line : Line} {more : List Line}
    (hs : .comment above line more ∈ ss) (hrow : above.length ≤ i)
    (hrow' : i ≤ above.length + more.length) :
    ∃ p ∈ regionLines deps text (scan text).value, trim p = trim l := by
  obtain ⟨s', hs', k', hk', hkept, hcontains⟩ := h.exists_preserved hs rfl
  obtain ⟨hstart, hstop⟩ := contains_iff.1 hcontains
  have hline := (h.lies hs).getElem? hrow hrow'
  rw [hi.line] at hline
  change some l = (line :: more)[i - above.length]? at hline
  cases s' with
  | passed _ _ => cases hkept
  | comment above₁ line₁ more₁ =>
    have hsame : Sighting.comment above₁ line₁ more₁ = .comment above line more := by
      refine (before_cases hs' hs).resolve_right fun hbefore => ?_
      cases hkept
      rcases hbefore with hbefore | hbefore <;>
      · have horder := h.stop_le_start hbefore
        simp only [Sighting.stop, Sighting.start, Position.le_def] at horder hstart hstop
        omega
    rw [hsame] at hkept
    have hbefore := h.before_last_of_comment hb hi hs hrow
    have hfirst := h.footprint_le_of_comment hapart hb hi hs hrow'
    have hparts := (keeps_comment (h.lies hs) hkept).lines_excerpt
    have hnew : ∀ p ∈ line.dropWhile isSpace :: more, p ∈ regionLines deps text (scan text).value :=
      fun p hp => h.mem_regionLines hb hr deps hkept hk' (by cases hkept; exact hfirst) hbefore
        (hparts ▸ hp)
    rcases List.mem_cons.1 (List.mem_of_getElem? hline.symm) with rfl | hmem
    · refine ⟨_, hnew _ List.mem_cons_self, ?_⟩
      nth_rewrite 2 [← List.takeWhile_append_dropWhile (p := isSpace) (l := l)]
      rw [trim_append_left List.all_takeWhile]
    · exact ⟨l, hnew l (List.mem_cons_of_mem _ hmem), rfl⟩
  | declaration above₁ before₁ d₁ more₁ after₁ =>
    have hbefore : Before ss (.comment above line more)
        (.declaration above₁ before₁ d₁ more₁ after₁) := by
      rcases before_cases hs hs' with hsame | hbefore | hbefore
      · cases hsame
      · exact hbefore
      · -- otherwise the comment would be empty
        exfalso
        have hle := Position.le_trans hstop (h.kept_stop_le_start hbefore hkept)
        simp only [Sighting.start, Position.le_def] at hle
        have hmore : more = [] := List.eq_nil_of_length_eq_zero (by omega)
        have hzero : i - above.length = 0 := by
          rw [hmore, List.length_nil] at hrow'
          omega
        rw [hzero, List.getElem?_cons_zero, Option.some.injEq] at hline
        rw [hmore, List.getLastD_cons, List.getLastD_nil, ← hline] at hle
        have hlen : l.length = 0 := by omega
        have hnonblank := hi.nonblank
        rw [List.eq_nil_of_length_eq_zero hlen] at hnonblank
        cases hnonblank
    have horder := h.stop_le_start hbefore
    obtain ⟨hstatement, hfoot, -⟩ := Declaration.kept?_eq_some hkept
    rw [← Sighting.isOrganized_declaration] at hstatement
    rw [hfoot] at hstart
    simp only [Sighting.stop, Sighting.start, Position.le_def] at horder hstart
    exact h.exists_of_kept_declaration hapart hb hr deps hi hs' hstatement (by omega) (by omega)

/-- An attribute on the row is among the new lines, with the declaration that it belongs to. -/
theorem exists_of_attribute {above : List Line} {line : Line} (hs : .passed above line ∈ ss)
    (hrow : above.length = i) (hattr : isAttributeLine l = true) :
    ∃ p ∈ regionLines deps text (scan text).value, trim p = trim l := by
  obtain ⟨above₁, before₁, d₁, more₁, after₁, hd, hfoot, htop⟩ :
      ∃ above₁ before₁ d₁ more₁ after₁, .declaration above₁ before₁ d₁ more₁ after₁ ∈ ss ∧
        (declared above₁ before₁ d₁ more₁ after₁).footprint.line ≤ i ∧ i < above₁.length := by
    obtain ⟨aboveL, beforeL, dL, moreL, afterL, rfl, -⟩ :=
      Sighting.exists_of_isOrganized hb.last_organized
    have hhigh : i < aboveL.length := hi.high
    obtain ⟨d, hd, hfoot, htop⟩ := hapart.headed _ hr (l, i)
      (List.mk_mem_zipIdx_iff_getElem?.2 hi.line) hattr hi.low
      (by simp only [Sighting.stop, placed]; omega) (hrow ▸ h.outside_of_passed hs)
    obtain ⟨above₁, before₁, d₁, more₁, after₁, hmem, rfl⟩ := h.exists_of_mem_declarations hd
    exact ⟨above₁, before₁, d₁, more₁, after₁, hmem, hfoot, Int.ofNat_lt.1 htop⟩
  obtain ⟨below, hls⟩ := h.lies hd
  obtain ⟨block, above', hblock⟩ := exists_headed above₁ before₁
  cases horg : (Sighting.declaration above₁ before₁ d₁ more₁ after₁).isOrganized with
  | false =>
    exact h.exists_of_kept_declaration hapart hb hr deps hi hd horg hfoot (by omega)
  | true =>
    rw [Sighting.isOrganized_declaration] at horg
    obtain ⟨t, ht, j, hj⟩ := exists_mem_statementsFrom (h.mem_items hd rfl) horg 0 false
    rw [hblock.line_footprint] at hfoot
    obtain ⟨l', hl', hline⟩ := hblock.getElem? hls (by omega) htop
    obtain rfl : l = l' := Option.some.inj (hi.line.symm.trans hline)
    have hmem : String.ofList (trim l) ∈ t.attributes := by
      rw [(Declaration.statement?_eq_some hj).2.2.1]
      change _ ∈ (attributesFor above₁ before₁).texts
      rw [hblock.attributes]
      exact List.mem_map.2 ⟨l, List.mem_filter.2 ⟨hl', hattr⟩, rfl⟩
    obtain ⟨p, hp, htrim⟩ := exists_regionLines_of_attribute deps (sound_scan text) ht hmem
    refine ⟨p, hp, htrim.trans ?_⟩
    rw [String.toList_ofList, trim_trim]

/-- A line without interest on the row is an attribute. -/
theorem exists_of_passed {above : List Line} {line : Line} (hs : .passed above line ∈ ss)
    (hrow : above.length = i) :
    ∃ p ∈ regionLines deps text (scan text).value, trim p = trim l := by
  obtain ⟨st, hrun⟩ := h.run
  have hline := (h.lies hs).getElem? (r := i) hrow.le (show i ≤ above.length by omega)
  change (lines text)[i]? = [line][i - above.length]? at hline
  rw [hi.line, hrow, Nat.sub_self, List.getElem?_cons_zero, Option.some.injEq] at hline
  obtain ⟨a, b, hss⟩ := List.append_of_mem hs
  rcases (hss ▸ hrun).passed with hblank | hattr | ⟨hnone, hpass⟩
  · rw [← hline, hi.nonblank] at hblank
    cases hblank
  · exact h.exists_of_attribute hapart hb hr deps hi hs hrow (hline ▸ hattr)
  · -- code on the row would stand above the first declaration, among its attributes
    exfalso
    have hfirst : first ∈ b := by
      have hmem := hss ▸ hb.mem_first
      rcases List.mem_append.1 hmem with hmem | hmem
      · rw [List.any_eq_false] at hnone
        exact absurd hb.first_organized (hnone first hmem)
      · refine (List.mem_cons.1 hmem).resolve_left fun hsame => ?_
        have horg := hb.first_organized
        rw [hsame] at horg
        cases horg
    have hbefore : Before ss (.passed above line) first := hss ▸ before_of_mem_right hfirst
    have horder := h.stop_le_start hbefore
    obtain ⟨above₁, before₁, first₁, more₁, after₁, rfl, -⟩ :=
      Sighting.exists_of_isOrganized hb.first_organized
    obtain ⟨block, above', hblock⟩ := exists_headed above₁ before₁
    have hlow : (declared above₁ before₁ first₁ more₁ after₁).footprint.line ≤ i := hi.low
    rw [hblock.line_footprint] at hlow
    simp only [Sighting.stop, Sighting.start, Position.le_def] at horder
    obtain ⟨below, hls⟩ := h.lies hb.mem_first
    obtain ⟨l', hl', hline'⟩ := hblock.getElem? hls (r := i) (by omega) (by omega)
    rw [hi.line, Option.some.injEq] at hline'
    rw [← hline, hline', hblock.passable l' hl'] at hpass
    cases hpass

/-- The line of the row is among the new lines. -/
theorem exists_regionLines : ∃ p ∈ regionLines deps text (scan text).value, trim p = trim l := by
  obtain ⟨st, hrun⟩ := h.run
  obtain ⟨a, b, hss, -⟩ := hb.last_split
  obtain ⟨st₁, st₂, hrun₁, hstep, -⟩ := (hss ▸ hrun).split
  have hhigh : i < st₁.above.length := by
    rw [← hstep.lies.1]
    exact hi.high
  have hlow : (State.initial (lines text)).above.length ≤ i := by
    have hbelow := h.below_first hapart hb
    have hfoot := hi.low
    rw [State.initial, List.length_reverse, List.length_take]
    omega
  obtain ⟨s, hs, htop, hbottom⟩ := hrun₁.covers hlow hhigh
  have hmem : s ∈ ss := hss ▸ List.mem_append_left _ hs
  cases s with
  | passed above line =>
    exact h.exists_of_passed hapart hb hr deps hi hmem (Nat.le_antisymm htop hbottom)
  | comment above line more => exact h.exists_of_comment hapart hb hr deps hi hmem htop hbottom
  | declaration above before d more after =>
    have hnot : (Sighting.declaration above before d more after).isOrganized = false := by
      by_contra horg
      rcases hi.free _ hmem (Bool.eq_true_of_not_eq_false horg) with hlt | hlt <;> omega
    have hle := footprint_le_start above before d more after
    refine h.exists_of_kept_declaration hapart hb hr deps hi hmem hnot ?_ hbottom
    simp only [Position.le_def] at hle
    change above.length ≤ i at htop
    omega

end Found

end Layout

/-- Organizing a document loses no line, if attributes, comments and declarations can be told
apart: every line that no statement touches is found again, up to the white space around it. -/
theorem organize_keeps_lines (formatter : Formatter) (deps : Option Dependencies)
    {text : List Char} (hapart : (survey (lines text)).Apart (lines text)) {i : Nat} {l : Line}
    (hl : (lines text)[i]? = some l) (hblank : isBlank l = false)
    (hfree : ∀ s ∈ (scan text).value.statements, ∀ r, s.span = some r →
      (i : Int) < r.start.line ∨ r.stop.line < i) :
    ∃ out, (organize formatter { deps } none none text).run.value = .ok out ∧
      ∃ o ∈ lines out, trim o = trim l := by
  cases hr : (scan text).value.region with
  | none =>
    exact ⟨text, value_organize_of_none deps formatter hr, l, List.mem_of_getElem? hl, rfl⟩
  | some r =>
    obtain ⟨ss, h⟩ := exists_layout (lines text)
    obtain ⟨first, last, hb, rfl⟩ := h.exists_bounds hr
    obtain ⟨out, hvalue, hout⟩ := h.output hb hr formatter deps
    refine ⟨out, hvalue, ?_⟩
    have hrows : ∀ e ∈ ss, e.isOrganized = true → i < e.top ∨ e.bottom < i := by
      intro e he horg
      obtain ⟨above, before, d, more, after, rfl, hstatement⟩ := Sighting.exists_of_isOrganized horg
      obtain ⟨t, ht, j, hj⟩ := exists_mem_statementsFrom (h.mem_items he rfl) hstatement 0 false
      have hspan := hfree t ht _ (Declaration.statement?_eq_some hj).2.2.2.1
      simp only [declared, placed] at hspan
      simp only [Sighting.bottom, Sighting.top, Sighting.above, Sighting.height]
      omega
    by_cases hlow : (i : Int) < first.footprint.line
    · exact ⟨l, hout.head i l hl hlow, rfl⟩
    by_cases hhigh : last.stop.line < i
    · exact ⟨l, hout.tail i l hl hhigh, rfl⟩
    have hi : Inner (lines text) ss first last i l := by
      refine ⟨hl, hblank, hrows, by omega, ?_⟩
      obtain ⟨above, before, d, more, after, rfl, -⟩ :=
        Sighting.exists_of_isOrganized hb.last_organized
      have hlast := hrows _ hb.mem_last hb.last_organized
      simp only [Sighting.stop, placed] at hhigh
      simp only [Sighting.bottom, Sighting.top, Sighting.above, Sighting.height] at hlast ⊢
      omega
    obtain ⟨p, hp, htrim⟩ := h.exists_regionLines hapart hb hr deps hi
    obtain ⟨o, ho, hotrim⟩ := hout.body p hp
    exact ⟨o, ho, hotrim.trans htrim⟩

/-- No statement touches a row. -/
theorem free_of_all {ss : List Statement} {i : Nat}
    (h : (ss.all fun s => s.span.all fun r =>
      decide ((i : Int) < r.start.line) || decide (r.stop.line < (i : Int))) = true) :
    ∀ s ∈ ss, ∀ r, s.span = some r → (i : Int) < r.start.line ∨ r.stop.line < i := by
  intro s hs r hr
  have hrow := List.all_eq_true.1 h s hs
  rw [hr, Option.all_some, Bool.or_eq_true, decide_eq_true_eq, decide_eq_true_eq] at hrow
  exact hrow

/-- A comment and a declaration that holds another one, between two imports. -/
def sampleKept : List Char := "use b;\n// c\n#[x]\nuse d /* e */;\n\nuse a;".toList

theorem organize_keeps_sampleKept :
    (survey (lines sampleKept)).Apart (lines sampleKept) ∧
      ∃ out, (organize .absent {} none none sampleKept).run.value = .ok out ∧
        ∃ o ∈ lines out, trim o = "#[x]".toList := by
  have hapart : (survey (lines sampleKept)).Apart (lines sampleKept) :=
    ⟨by decide +kernel, by decide +kernel, by decide +kernel, by decide +kernel⟩
  exact ⟨hapart, organize_keeps_lines .absent none hapart (i := 2) (l := "#[x]".toList)
    (by decide +kernel) (by decide +kernel) (free_of_all (by decide +kernel))⟩

/-- An attribute above a comment that goes over two lines. -/
def sampleLost : List Char := "use b;\n#[cfg(unix)]\n/* only\n   there */\nuse a;".toList

/-- The attribute is lost: it is not taken for one of the declaration below, and it is not kept as
a comment. -/
theorem organize_loses_sampleLost :
    ∃ (i : Nat) (l : Line) (out : List Char), (lines sampleLost)[i]? = some l ∧ isBlank l = false ∧
      (∀ s ∈ (scan sampleLost).value.statements, ∀ r, s.span = some r →
        (i : Int) < r.start.line ∨ r.stop.line < i) ∧
      (organize .absent {} none none sampleLost).run.value = .ok out ∧
      ∀ o ∈ lines out, trim o ≠ trim l := by
  refine ⟨1, "#[cfg(unix)]".toList, "use b;\n\n/* only\n   there */\nuse a;".toList,
    by decide +kernel, by decide +kernel, free_of_all (by decide +kernel), by decide +kernel,
    by decide +kernel⟩

end TidyUse.Document
