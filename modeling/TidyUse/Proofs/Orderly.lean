import TidyUse.Proofs.KeptLines
import TidyUse.Proofs.Replay

/-!
# Kept text that is met again

* `linesOf` : the lines on which something stands;
* `Sighting.Closed` : no attributes inside of a sighting are in sight from below it;
  `Layout.not_straddle`, `Layout.outside` : so no declaration takes them for its own;
* `Chain` : the declarations that share a line; `Layout.exists_block_run` : a survey stops at the
  first attribute of a declaration;
* `Commented`, `Run.exists_commented` : between attributes there are comments at most;
* `Replays` : a survey meets some kept text again wherever it is put; `replays_comment`,
  `replays_declaration`;
* `Orderly` : a document in which things can be told apart wherever they are moved;
  `Layout.replays_of_before` : what it keeps is met again.
-/

namespace TidyUse.Document

open Text

/-! ## Attributes in sight -/

theorem clear_of_append {xs ys : List Line} (h : Clear (xs ++ ys)) : Clear xs := by
  intro l hl
  refine h l ?_
  rw [List.takeWhile_append]
  split
  · exact List.mem_append_left _ ((List.takeWhile_prefix _).subset hl)
  · exact hl

theorem clear_append {xs above : List Line} (hx : Clear xs) (h : Clear above) :
    Clear (xs ++ above) := by
  induction xs with
  | nil => exact h
  | cons x xs ih =>
    by_cases hpass : isPassable x = true
    · have hmem : ∀ l ∈ xs.takeWhile isPassable, l ∈ (x :: xs).takeWhile isPassable := by
        intro l hl
        rw [List.takeWhile_cons, if_pos hpass]
        exact List.mem_cons_of_mem _ hl
      have hattr : isAttributeLine x = false :=
        hx x (by rw [List.takeWhile_cons, if_pos hpass]; exact List.mem_cons_self)
      exact clear_cons hattr (ih fun l hl => hx l (hmem l hl))
    · exact clear_cons_of_not_isPassable (Bool.eq_false_iff.2 hpass) _

/-- Whether attributes are in sight is told by the kinds of the lines. -/
theorem clear_cons_congr {l l' : Line} {above : List Line} (hpass : isPassable l' = isPassable l)
    (hattr : isAttributeLine l' = isAttributeLine l) (h : Clear (l :: above)) :
    Clear (l' :: above) := by
  by_cases hl : isPassable l = true
  · have hmem : ∀ m ∈ l :: above.takeWhile isPassable, isAttributeLine m = false := by
      intro m hm
      refine h m ?_
      rwa [List.takeWhile_cons, if_pos hl]
    refine clear_cons (hattr.trans (hmem l List.mem_cons_self)) fun m hm => ?_
    exact hmem m (List.mem_cons_of_mem _ hm)
  · exact clear_cons_of_not_isPassable (hpass.trans (Bool.eq_false_iff.2 hl)) _

/-- What follows a `;` does not change the kind of a line. -/
theorem kinds_behind_semicolon (x after : List Char) :
    isPassable (x ++ [';'] ++ after) = isPassable (x ++ [';']) ∧
      isAttributeLine (x ++ [';'] ++ after) = isAttributeLine (x ++ [';']) := by
  have hblank : ∀ ys, isBlank (x ++ [';'] ++ ys) = false := by
    intro ys
    rw [Bool.eq_false_iff]
    intro hb
    have hsemi := List.all_eq_true.1 hb ';' (by simp)
    revert hsemi
    decide
  have hkinds : isCommentLine (x ++ [';'] ++ after) = isCommentLine (x ++ [';']) ∧
      isAttributeLine (x ++ [';'] ++ after) = isAttributeLine (x ++ [';']) := by
    have hne : trimStart (x ++ [';']) ≠ [] := by
      have hb := hblank []
      rw [List.append_nil] at hb
      rw [Ne, trimStart_eq_nil_iff, hb]
      exact Bool.false_ne_true
    have hends : ∃ ys, trimStart (x ++ [';']) = ys ++ [';'] := by
      by_cases hx : trimStart x = []
      · refine ⟨[], ?_⟩
        rw [trimStart_append (trimStart_eq_nil_iff.1 hx)]
        decide
      · exact ⟨trimStart x, trimStart_append_of_ne hx _⟩
    obtain ⟨ys, hys⟩ := hends
    rw [isCommentLine, isCommentLine, isAttributeLine, isAttributeLine,
      trimStart_append_of_ne hne, hys]
    cases ys with
    | nil => exact ⟨rfl, rfl⟩
    | cons c ys =>
      cases ys with
      | nil => exact ⟨by unfold opensComment; split <;> simp_all, by simp [List.isPrefixOf]⟩
      | cons d ys => exact ⟨by unfold opensComment; split <;> simp_all, by simp [List.isPrefixOf]⟩
  have hb := hblank []
  rw [List.append_nil] at hb
  refine ⟨?_, hkinds.2⟩
  rw [isPassable, isPassable, hblank, hb, hkinds.1, hkinds.2]

/-- A line that opens with a declaration is nothing else. -/
theorem isPassable_of_opensUse {ws cs : List Char} (hws : isBlank ws = true)
    (ho : opensUse cs = true) : isPassable (ws ++ cs) = false :=
  (sight_eq_start (sight_start hws ho false [] []).1).2.1

/-- Behind a declaration no attributes are in sight, if there were none before the text around it
was changed. -/
theorem clear_rows {before before' first after after' : List Char} {more above : List Line}
    (hends : Ends 0 first more) (hclear : Clear (rows before first more after).reverse)
    {line : Line} {tail : List Line} (hrows : rows before' first more after' = line :: tail)
    (htop : Clear (line :: above)) : Clear ((rows before' first more after').reverse ++ above) := by
  cases more with
  | nil =>
    rw [rows_nil] at hrows ⊢
    obtain ⟨rfl, -⟩ := List.cons.inj hrows
    exact htop
  | cons next more =>
    rw [rows_cons] at hrows
    obtain ⟨rfl, -⟩ := List.cons.inj hrows
    rw [rows_cons, List.reverse_cons] at hclear ⊢
    rw [List.append_assoc]
    refine clear_append ?_ htop
    have hlower := clear_of_append hclear
    obtain ⟨x, hx⟩ := Ends.last hends.2 []
    obtain ⟨hpass, hattr⟩ := kinds_behind_semicolon x after
    obtain ⟨hpass', hattr'⟩ := kinds_behind_semicolon x after'
    rw [rows, List.reverse_append, List.reverse_singleton, List.singleton_append, hx] at hlower ⊢
    exact clear_cons_congr (hpass'.trans hpass.symm) (hattr'.trans hattr.symm) hlower

theorem exists_rows_of_opensUse {first : List Char} (ho : opensUse first = true)
    (before : List Char) (more : List Line) (after : List Char) :
    ∃ y tail, rows before first more after = (before ++ y) :: tail ∧ opensUse y = true := by
  cases more with
  | nil => exact ⟨first ++ after, [], by rw [rows_nil, List.append_assoc], opensUse_append ho after⟩
  | cons next more => exact ⟨first, _, rows_cons .., ho⟩

/-- The whole lines on which something stands. -/
def linesOf (ls : List Line) (s : Span) : List Line :=
  (ls.take (s.stop.line.toNat + 1)).drop s.start.line.toNat

theorem Sighting.span_rows {s : Sighting} {i : Item} (hi : s.item? = some i) :
    i.span.start.line = (s.top : Int) ∧ i.span.stop.line = (s.bottom : Int) := by
  cases s with
  | passed _ _ => cases hi
  | comment _ _ _ => cases hi; exact ⟨rfl, rfl⟩
  | declaration _ _ _ _ _ => cases hi; exact ⟨rfl, rfl⟩

theorem Sighting.span_within {s : Sighting} {i : Item} (hi : s.item? = some i) :
    s.start ≤ i.span.start ∧ i.span.stop ≤ s.stop := by
  cases s with
  | passed _ _ => cases hi
  | comment above line more =>
    cases hi
    refine ⟨Or.inr ⟨rfl, Int.natCast_nonneg _⟩, Or.inl ?_⟩
    show ((above.length + more.length : Nat) : Int) < (above.length + more.length + 1 : Nat)
    omega
  | declaration _ _ _ _ _ =>
    cases hi
    exact ⟨Position.le_refl _, Position.le_refl _⟩

theorem Sighting.Lies.linesOf_eq {s : Sighting} {ls : List Line} (h : s.Lies ls) {i : Item}
    (hi : s.item? = some i) : linesOf ls i.span = s.lines := by
  have hrows := Sighting.span_rows hi
  obtain ⟨below, rfl⟩ := h
  have hlen : s.bottom + 1 = (s.above.reverse ++ s.lines).length := by
    rw [List.length_append, List.length_reverse, s.length_lines, Sighting.bottom, Sighting.top]
    omega
  rw [linesOf, hrows.1, hrows.2, Int.toNat_natCast, Int.toNat_natCast, hlen, ← List.append_assoc,
    List.take_left, Sighting.top, ← List.length_reverse, List.drop_left]

/-- No attributes inside of a sighting are in sight from below it. -/
def Sighting.Closed (s : Sighting) : Prop := ∀ i, s.item? = some i → Clear s.lines.reverse

namespace Layout

variable {ls : List Line} {ss : List Sighting} (h : Layout ls ss)

include h

/-- What comes before the first declaration on a line ends above the line. -/
theorem bottom_lt_of_before {above : List Line} {before first : List Char} {more : List Line}
    {after : List Char} (hd : .declaration above before first more after ∈ ss)
    (hb : isBlank before = true) {s : Sighting}
    (hbefore : Before ss s (.declaration above before first more after)) :
    s.bottom < above.length := by
  have horder := h.stop_le_start hbefore
  cases s with
  | passed above₁ line =>
    simp only [Sighting.stop, Sighting.start, Position.le_def] at horder
    simp only [Sighting.bottom, Sighting.top, Sighting.above, Sighting.height]
    omega
  | comment above₁ line more₁ =>
    simp only [Sighting.stop, Sighting.start, Position.le_def] at horder
    simp only [Sighting.bottom, Sighting.top, Sighting.above, Sighting.height]
    omega
  | declaration above₁ before₁ first₁ more₁ after₁ =>
    have hne : (Sighting.declaration above₁ before₁ first₁ more₁ after₁).bottom ≠ above.length := by
      intro heq
      rw [h.isBlank_of_bottom_eq hd rfl hbefore heq] at hb
      cases hb
    simp only [Sighting.stop, Sighting.start, placed, Position.le_def] at horder
    simp only [Sighting.bottom, Sighting.top, Sighting.above, Sighting.height] at hne ⊢
    omega

/-- Nothing lies partly in the block of attributes of a declaration below it. -/
theorem not_straddle {above : List Line} {before first : List Char} {more : List Line}
    {after : List Char} (hd : .declaration above before first more after ∈ ss)
    (hb : isBlank before = true) {block above' : List Line}
    (hblock : Headed above before block above') {s : Sighting}
    (hbefore : Before ss s (.declaration above before first more after)) (hclosed : s.Closed) :
    s.bottom < above'.length ∨ above'.length ≤ s.top := by
  by_contra hnot
  rw [not_or, Nat.not_lt, Nat.not_le] at hnot
  obtain ⟨hlow, htop⟩ := hnot
  have hs : s ∈ ss := hbefore.mem_left
  have hbottom := h.bottom_lt_of_before hd hb hbefore
  have hlen := hblock.length_above
  obtain ⟨i, hi⟩ : ∃ i, s.item? = some i := by
    cases s with
    | passed above₁ line =>
      simp only [Sighting.bottom, Sighting.height] at hlow
      omega
    | comment above₁ line more₁ => exact ⟨_, rfl⟩
    | declaration above₁ before₁ first₁ more₁ after₁ => exact ⟨_, rfl⟩
  -- the rows from the first attribute to the end of the sighting lie in the block
  obtain ⟨below, hls⟩ := h.lies hd
  have hrow : ∀ r, above'.length ≤ r → r ≤ s.bottom → ∃ l ∈ block, s.lines[r - s.top]? = some l := by
    intro r hr hr'
    obtain ⟨l, hl, hget⟩ := hblock.getElem? hls hr (by omega)
    exact ⟨l, hl, ((h.lies hs).getElem? (by omega) hr').symm.trans hget⟩
  have hlines := s.length_lines
  rw [Sighting.bottom] at hlow hrow hbottom
  set k := above'.length - s.top with hk
  have hpass : ∀ l ∈ (s.lines.drop k).reverse, isPassable l = true := by
    intro l hl
    obtain ⟨j, hj⟩ := List.mem_iff_getElem?.1 (List.mem_reverse.1 hl)
    rw [List.getElem?_drop] at hj
    have hlt := (List.getElem?_eq_some_iff.1 hj).1
    obtain ⟨l', hl', hget⟩ := hrow (s.top + (k + j)) (by omega) (by omega)
    rw [Nat.add_sub_cancel_left, hj] at hget
    rw [Option.some.inj hget]
    exact hblock.passable l' hl'
  have hne : block ≠ [] := by
    rintro rfl
    rw [List.length_nil] at hlen
    omega
  obtain ⟨top, rest, hcons⟩ := List.exists_cons_of_ne_nil hne
  have hhead : block.head? = some top := by rw [hcons]; rfl
  have hget : s.lines[k]? = some top := by
    have hrow' := hblock.getElem?_top hls hhead
    rw [(h.lies hs).getElem? (Nat.le_of_lt htop) (by rw [Sighting.bottom]; omega)] at hrow'
    exact hrow'
  have hmem : top ∈ (s.lines.drop k).reverse := by
    rw [List.mem_reverse, List.mem_iff_getElem?]
    exact ⟨0, by rw [List.getElem?_drop, Nat.add_zero, hget]⟩
  have hclear := hclosed i hi
  rw [← List.take_append_drop k s.lines, List.reverse_append] at hclear
  have hattr := hclear top (by
    rw [List.takeWhile_append_of_pos hpass]
    exact List.mem_append_left _ hmem)
  rw [(hblock.topped top hhead).1] at hattr
  cases hattr

/-- What starts on the row of an attribute, or below it, starts behind it. -/
theorem indent_le {s : Sighting} (hs : s ∈ ss) {i : Item} (hi : s.item? = some i)
    {above : List Line} {before : List Char} {block above' : List Line}
    (hblock : Headed above before block above') {top : Line} (htop : block.head? = some top)
    {first : List Char} {more : List Line} {after : List Char}
    (hlies : (Sighting.declaration above before first more after).Lies ls)
    (hrow : above'.length ≤ s.top) : (⟨above'.length, indent top⟩ : Position) ≤ i.span.start := by
  have hline : i.span.start.line = (s.top : Int) := by
    cases s with
    | passed _ _ => cases hi
    | comment _ _ _ => cases hi; rfl
    | declaration _ _ _ _ _ => cases hi; rfl
  rcases Nat.lt_or_eq_of_le hrow with hlt | heq
  · refine Or.inl ?_
    rw [hline]
    exact Int.ofNat_lt.2 hlt
  refine Or.inr ⟨by rw [hline, heq], ?_⟩
  obtain ⟨below, hls⟩ := hlies
  have hget := hblock.getElem?_top hls htop
  rw [heq] at hget
  have hpass := hblock.passable top (List.mem_of_mem_head? htop)
  cases s with
  | passed _ _ => cases hi
  | comment above₁ line more₁ =>
    cases hi
    have hfirst := (h.lies hs).getElem? (Nat.le_refl _) (Sighting.top_le_bottom _)
    rw [hget, Nat.sub_self] at hfirst
    have hsame : top = line := Option.some.inj hfirst
    rw [hsame]
    exact Int.le_refl _
  | declaration above₁ before₁ first₁ more₁ after₁ =>
    cases hi
    obtain ⟨st, hrun⟩ := h.run
    obtain ⟨a, b, rfl⟩ := List.append_of_mem hs
    obtain ⟨line, hline', hcases⟩ := hrun.line_of_declaration
    have hsame : top = line := Option.some.inj (hget.symm.trans hline')
    rcases hcases with ⟨hnot, -⟩ | ⟨hblank, -⟩
    · rw [← hsame, hpass] at hnot
      cases hnot
    · obtain ⟨y, tail, hy⟩ := exists_rows_eq_cons before₁ first₁ more₁ after₁
      have hfirst := (h.lies hs).getElem? (Nat.le_refl _) (Sighting.top_le_bottom _)
      rw [hget, Nat.sub_self, Sighting.lines, hy] at hfirst
      have hrow' : top = before₁ ++ y := Option.some.inj hfirst
      rw [hrow']
      exact Int.ofNat_le.2 (Nat.le_of_lt (indent_lt hblank y))

/-- No declaration takes attributes from inside of something that comes before it. -/
theorem outside {t : Sighting} (ht : t ∈ ss) (hclosed : ∀ s, s = t ∨ Before ss s t → s.Closed) :
    (survey ls).Outside t.stop := by
  intro d hd i hi hstop
  obtain ⟨item, hmem, hitem⟩ := List.mem_filterMap.1 hd
  rw [h.items] at hmem hi
  obtain ⟨s, hs, hsi⟩ := List.mem_filterMap.1 hi
  obtain ⟨e, he, hei⟩ := List.mem_filterMap.1 hmem
  obtain ⟨above, before, first, more, after, rfl, rfl⟩ : ∃ above before first more after,
      e = .declaration above before first more after ∧
        d = declared above before first more after := by
    cases e with
    | passed _ _ => cases hei
    | comment _ _ _ => cases hei; cases hitem
    | declaration above before first more after =>
      cases hei
      cases hitem
      exact ⟨above, before, first, more, after, rfl, rfl⟩
  obtain ⟨hlower, hupper⟩ := Sighting.span_within hsi
  have hfoot := footprint_le_start above before first more after
  have hsclosed : s.Closed := by
    refine hclosed s ((before_cases hs ht).imp_right fun hcases => hcases.resolve_right ?_)
    intro hbefore
    have hle := h.stop_le_start hbefore
    have hlt := h.start_lt_span_stop hs hsi
    simp only [Position.le_def, Position.lt_def] at *
    omega
  rcases before_cases he hs with rfl | hbefore | hbefore
  · exact Or.inl (Position.le_trans hfoot hlower)
  · refine Or.inl (Position.le_trans hfoot (Position.le_trans ?_ hlower))
    exact Position.le_trans (Sighting.start_le_stop _) (h.stop_le_start hbefore)
  · obtain ⟨block, above', hblock⟩ := exists_headed above before
    rcases eq_or_ne block [] with hnil | hne
    · rw [hblock.bare hnil]
      exact Or.inr (Position.le_trans hupper (h.stop_le_start hbefore))
    · have hline := hblock.line_footprint first more after
      obtain ⟨top, rest, hcons⟩ := List.exists_cons_of_ne_nil hne
      have hpos := hblock.length_above
      rcases h.not_straddle he (hblock.blank hne) hblock hbefore hsclosed with hlow | hhigh
      · refine Or.inr ?_
        rw [Position.le_def, (Sighting.span_rows hsi).2, hline]
        omega
      · have hhead : block.head? = some top := by rw [hcons]; rfl
        rw [(hblock.topped top hhead).2 first more after]
        exact Or.inl (h.indent_le hs hsi hblock hhead (h.lies he) hhigh)

end Layout

/-! ## The run up to a declaration -/

/-- Declarations each of which follows the one before it on its line. -/
inductive Chain : State → List Sighting → State → Prop
  | nil {st : State} : Chain st [] st
  | cons {found : Bool} {above : List Line} {before rest first gap rest' : List Char}
    {below more below' : List Line} {ss : List Sighting} {st : State}
    (stands : Stands before rest below first more (gap ++ rest') below')
    (blank : isBlank gap = true) (opens : opensUse rest' = true)
    (chain : Chain ⟨found || (declared above before first more (gap ++ rest')).isStatement,
      (leadRows before first more).reverse ++ above,
      .declaration (lastRow before first more ++ gap) rest' below'⟩ ss st) :
    Chain ⟨found, above, .declaration before rest below⟩
      (.declaration above before first more (gap ++ rest') :: ss) st

/-- A survey that stands at a declaration came there from the start of a line. -/
theorem Run.exists_chain {st st' : State} {ss : List Sighting} (h : Run st ss st')
    {before rest : List Char} {below : List Line}
    (hplace : st'.place = .declaration before rest below) :
    (∃ before rest below, st.place = .declaration before rest below) ∧ Chain st ss st' ∨
      ∃ ss₁ ss₂ found above before rest below, ss = ss₁ ++ ss₂ ∧
        Run st ss₁ ⟨found, above, .line ((before ++ rest) :: below)⟩ ∧
        (⟨above, before ++ rest, below⟩ : Cursor).sight found 0 = .start before.length ∧
        Chain ⟨found, above, .declaration before rest below⟩ ss₂ st' := by
  induction h with
  | nil => exact Or.inl ⟨⟨_, _, _, hplace⟩, .nil⟩
  | @cons st _ _ as bs step run ih =>
    rcases ih hplace with ⟨⟨b, r, B, hmid⟩, hchain⟩ |
      ⟨ss₁, ss₂, found, above, b, r, B, rfl, hrun, hsight, hchain⟩
    · cases step with
      | skip _ => cases hmid
      | comment _ => cases hmid
      | finish _ _ => cases hmid
      | stop _ _ => cases hmid
      | start sight => exact Or.inr ⟨[], bs, _, _, _, _, _, rfl, .nil, sight, hchain⟩
      | next stands blank opens => exact Or.inl ⟨⟨_, _, _, rfl⟩, .cons stands blank opens hchain⟩
    · exact Or.inr ⟨as ++ ss₁, ss₂, found, above, b, r, B, (List.append_assoc _ _ _).symm,
        .cons step hrun, hsight, hchain⟩

/-- Behind another declaration a line is not blank. -/
theorem Chain.not_blank {found : Bool} {above : List Line} {before rest : List Char}
    {below : List Line} {st : State} {ss : List Sighting}
    (h : Chain st ss ⟨found, above, .declaration before rest below⟩) (hne : ss ≠ []) :
    isBlank before = false := by
  generalize hst' : (⟨found, above, .declaration before rest below⟩ : State) = st' at h
  induction h with
  | nil => exact absurd rfl hne
  | @cons _ _ _ _ _ _ _ _ _ _ ss _ stands _ _ chain ih =>
    rcases eq_or_ne ss [] with rfl | hss
    · cases chain
      cases hst'
      exact isBlank_lastRow stands.ends _ _
    · exact ih hss hst'

namespace Layout

variable {ls : List Line} {ss : List Sighting} (h : Layout ls ss)

include h

/-- The line on which a declaration starts, with the declarations before it on that line. -/
theorem exists_chain {above : List Line} {before first : List Char} {more : List Line}
    {after : List Char} {a c : List Sighting}
    (hss : ss = a ++ .declaration above before first more after :: c) :
    ∃ a₁ a₂ found₁ above₁ before₁ rest₁ below₁ found rest below, a = a₁ ++ a₂ ∧
      Run (.initial ls) a₁ ⟨found₁, above₁, .line ((before₁ ++ rest₁) :: below₁)⟩ ∧
      (⟨above₁, before₁ ++ rest₁, below₁⟩ : Cursor).sight found₁ 0 = .start before₁.length ∧
      Chain ⟨found₁, above₁, .declaration before₁ rest₁ below₁⟩ a₂
        ⟨found, above, .declaration before rest below⟩ := by
  obtain ⟨st, hrun⟩ := h.run
  rw [hss] at hrun
  obtain ⟨st₁, st₂, hrun₁, hstep, -⟩ := hrun.split
  obtain ⟨found, rest, below, -, rfl, -⟩ := hstep.exists_stands
  rcases hrun₁.exists_chain rfl with ⟨⟨_, _, _, hinitial⟩, -⟩ |
    ⟨a₁, a₂, found₁, above₁, before₁, rest₁, below₁, rfl, hline, hsight, hchain⟩
  · cases hinitial
  · exact ⟨a₁, a₂, found₁, above₁, before₁, rest₁, below₁, found, rest, below, rfl, hline, hsight,
      hchain⟩

variable (hpre : Clear (ls.take (preambleLength ls)).reverse)

include hpre

/-- A survey stops at the first attribute of a declaration that is the first on its line. -/
theorem exists_block_run {above : List Line} {before first : List Char} {more : List Line}
    {after : List Char} {a c : List Sighting}
    (hss : ss = a ++ .declaration above before first more after :: c)
    (hclosed : ∀ s ∈ a, s.Closed) (hb : isBlank before = true) {block above' : List Line}
    (hblock : Headed above before block above') :
    ∃ a₁ a₂ found found' below, a = a₁ ++ a₂ ∧ below ≠ [] ∧
      Run (.initial ls) a₁ ⟨found, above', .line (block ++ below)⟩ ∧
      Run ⟨found, above', .line (block ++ below)⟩ a₂ ⟨found', above, .line below⟩ := by
  obtain ⟨found', rest, below, hline⟩ : ∃ found' rest below,
      Run (.initial ls) a ⟨found', above, .line ((before ++ rest) :: below)⟩ := by
    obtain ⟨a₁, a₂, found, above₁, before₁, rest₁, below₁, found', rest, below, rfl, hline, -,
      hchain⟩ := h.exists_chain hss
    rcases eq_or_ne a₂ [] with rfl | hne
    · cases hchain
      rw [List.append_nil]
      exact ⟨found, rest₁, below₁, hline⟩
    · rw [hchain.not_blank hne] at hb
      cases hb
  have hd : .declaration above before first more after ∈ ss := by
    rw [hss]
    simp
  obtain ⟨ms, hms⟩ := hline.above_suffix
  have hlow : preambleLength ls ≤ above'.length ∨ ls.length ≤ above'.length := by
    have hblock' := hblock
    rw [show above = ms ++ (ls.take (preambleLength ls)).reverse from hms] at hblock'
    have hle := hblock'.length_le_of_clear hpre
    rw [List.length_reverse, List.length_take] at hle
    omega
  have hlen := hblock.length_above
  have hlines : ls = above.reverse ++ (before ++ rest) :: below := by
    rw [← lines_initial ls, ← hline.lines_eq]
    rfl
  have hwithin : (State.initial ls).Within above'.length := by
    show (ls.take (preambleLength ls)).reverse.length ≤ above'.length
    rw [List.length_reverse, List.length_take]
    omega
  obtain ⟨a₁, a₂, found, A, B, hsplit, hA, hrun₁, hrun₂⟩ := hline.exists_at_row hwithin
    (show above'.length ≤ above.length by omega)
    (fun s hs => h.not_straddle hd hb hblock (hss ▸ before_of_mem_left hs) (hclosed s hs))
  have hcut : A.reverse ++ B = above'.reverse ++ (block ++ (before ++ rest) :: below) := by
    have hAB := hrun₁.lines_eq
    rw [lines_initial, hlines, hblock.above_eq] at hAB
    simpa [State.lines, Place.lines] using hAB
  obtain ⟨hA', rfl⟩ := List.append_inj hcut (by simpa using hA)
  rw [List.reverse_inj] at hA'
  subst hA'
  exact ⟨a₁, a₂, found, found', _, hsplit, List.cons_ne_nil _ _, hrun₁, hrun₂⟩

end Layout

/-- A line that may stand among attributes is passed alone or as the start of a comment. -/
theorem Run.passable_cases {found found' : Bool} {above above' below below' : List Line}
    {line : Line} {ss : List Sighting}
    (h : Run ⟨found, above, .line (line :: below)⟩ ss ⟨found', above', .line below'⟩)
    (hpass : isPassable line = true) (hlt : above.length < above'.length) :
    ((isBlank line = true ∨ isAttributeLine line = true) ∧
      ∃ ss', Run ⟨found, line :: above, .line below⟩ ss' ⟨found', above', .line below'⟩) ∨
    ∃ more rest, below = more ++ rest ∧ commentLines line below = some more.length ∧
      ∃ ss', Run ⟨found, more.reverse ++ line :: above, .line rest⟩ ss'
        ⟨found', above', .line below'⟩ := by
  generalize hst : (⟨found, above, .line (line :: below)⟩ : State) = st at h
  cases h with
  | nil =>
    cases hst
    exact absurd hlt (Nat.lt_irrefl _)
  | @cons _ st₁ _ as bs step run =>
    cases step with
    | finish _ _ => cases hst
    | next _ _ _ => cases hst
    | stop _ _ => cases hst
    | skip sight =>
      cases hst
      rcases sight_eq_nothing sight with hblank | hattr | ⟨-, hnot, -⟩
      · exact Or.inl ⟨Or.inl hblank, bs, run⟩
      · exact Or.inl ⟨Or.inr hattr, bs, run⟩
      · rw [hpass] at hnot
        cases hnot
    | comment sight =>
      have hcomment := sight_eq_comment sight
      cases hst
      exact Or.inr ⟨_, _, rfl, hcomment, bs, run⟩
    | start sight =>
      have hnot := (sight_eq_start sight).2.1
      cases hst
      rw [hpass] at hnot
      cases hnot

/-- A comment that a run to the end of some lines passes ends among them. -/
theorem Run.comment_within {found found' : Bool} {above block below more rest : List Line}
    {line : Line} {ss : List Sighting}
    (h : Run ⟨found, more.reverse ++ line :: above, .line rest⟩ ss
      ⟨found', (line :: block).reverse ++ above, .line below⟩)
    (hbelow : block ++ below = more ++ rest) :
    ∃ block', block = more ++ block' ∧ rest = block' ++ below := by
  obtain ⟨ms, hms⟩ := h.above_suffix
  have hle : more.length ≤ block.length := by
    have hlen := congrArg List.length hms
    simp only [List.length_append, List.length_reverse, List.length_cons] at hlen
    omega
  obtain ⟨block', rfl⟩ : more <+: block := List.prefix_of_prefix_length_le
    (List.prefix_append more rest) (hbelow ▸ List.prefix_append block below) hle
  rw [List.append_assoc] at hbelow
  exact ⟨block', rfl, (List.append_cancel_left hbelow).symm⟩

/-- Lines are passed and give nothing but comments among them. -/
structure Commented (stage : Stage) (above block : List Line) (items : List Item)
    (stage' : Stage) : Prop where
  passes : Passes stage above block items stage'
  found : stage'.found = stage.found
  comments : ∀ i ∈ items, ∃ span, i = .comment span ∧ (above.length : Int) ≤ span.start.line ∧
    span.stop.line < (above.length + block.length : Nat)

theorem commented_nil (stage : Stage) (above : List Line) : Commented stage above [] [] stage :=
  ⟨.nil, rfl, by simp⟩

theorem Commented.append {stage stage₁ stage₂ : Stage} {above block block' : List Line}
    {items items' : List Item} (h : Commented stage above block items stage₁)
    (h' : Commented stage₁ (block.reverse ++ above) block' items' stage₂) :
    Commented stage above (block ++ block') (items ++ items') stage₂ := by
  refine ⟨h.passes.append h'.passes, h'.found.trans h.found, fun i hi => ?_⟩
  rw [List.length_append]
  rcases List.mem_append.1 hi with hi | hi
  · obtain ⟨span, hspan, hlow, hhigh⟩ := h.comments i hi
    exact ⟨span, hspan, hlow, by omega⟩
  · obtain ⟨span, hspan, hlow, hhigh⟩ := h'.comments i hi
    rw [List.length_append, List.length_reverse] at hlow hhigh
    exact ⟨span, hspan, by omega, by omega⟩

theorem exists_commented_line {line : Line}
    (h : isBlank line = true ∨ isAttributeLine line = true) (stage : Stage) (above : List Line) :
    ∃ stage', Commented stage above [line] [] stage' := by
  rcases h with hblank | hattr
  · exact ⟨stage, passes_blank hblank, rfl, by simp⟩
  · exact ⟨stage.leave, passes_attribute hattr, by cases stage <;> rfl, by simp⟩

theorem commented_comment {line : Line} {more : List Line}
    (h : ∀ others, commentLines line (more ++ others) = some more.length) (stage : Stage)
    (above : List Line) :
    Commented stage above (line :: more) (stage.commentItems above line more) stage := by
  refine ⟨passes_comment h, rfl, fun i hi => ?_⟩
  cases stage with
  | preamble => exact absurd hi List.not_mem_nil
  | body f =>
    rw [List.mem_singleton.1 hi]
    refine ⟨_, rfl, Int.le_refl _, ?_⟩
    show ((above.length + more.length : Nat) : Int) < _
    rw [List.length_cons]
    omega

/-- Lines that may stand among attributes are passed wherever they stand. -/
theorem Run.exists_commented {found found' : Bool} {above block below : List Line}
    {ss : List Sighting}
    (h : Run ⟨found, above, .line (block ++ below)⟩ ss ⟨found', block.reverse ++ above, .line below⟩)
    (hpass : ∀ l ∈ block, isPassable l = true) (hne : below ≠ []) (stage : Stage)
    (above' : List Line) : ∃ items stage', Commented stage above' block items stage' := by
  induction hn : block.length using Nat.strongRecOn generalizing block above ss stage above' with
  | ind n ih =>
    cases block with
    | nil => exact ⟨[], stage, commented_nil stage above'⟩
    | cons line block =>
      rw [List.cons_append] at h
      rcases h.passable_cases (hpass line List.mem_cons_self) (by simp; omega) with
        ⟨hkind, ss', hrun⟩ | ⟨more, rest, hbelow, hcomment, ss', hrun⟩
      · obtain ⟨stage₁, hfirst⟩ := exists_commented_line hkind stage above'
        obtain ⟨items, stage', hrest⟩ := ih block.length (by simp [← hn]) (by simpa using hrun)
          (fun l hl => hpass l (List.mem_cons_of_mem _ hl)) stage₁ (line :: above') rfl
        exact ⟨items, stage', hfirst.append hrest⟩
      · obtain ⟨block, rfl, rfl⟩ := hrun.comment_within hbelow
        obtain ⟨next, others, hnext⟩ := List.exists_cons_of_ne_nil
          (List.append_ne_nil_of_right_ne_nil block hne)
        have hclosed : ∀ others, commentLines line (more ++ others) = some more.length := by
          rw [List.append_assoc, hnext] at hcomment
          exact commentLines_append hcomment
        obtain ⟨items, stage', hrest⟩ := ih block.length
          (by rw [← hn, List.length_cons, List.length_append]; omega) (by simpa using hrun)
          (fun l hl => hpass l (by simp [hl])) stage ((line :: more).reverse ++ above') rfl
        exact ⟨_, stage', (commented_comment hclosed stage above').append hrest⟩

theorem Run.skip_attribute {found found' : Bool} {above above' below below' : List Line}
    {line : Line} {ss : List Sighting}
    (h : Run ⟨found, above, .line (line :: below)⟩ ss ⟨found', above', .line below'⟩)
    (hattr : isAttributeLine line = true) (hlt : above.length < above'.length) :
    ∃ ss', Run ⟨found, line :: above, .line below⟩ ss' ⟨found', above', .line below'⟩ := by
  have hpass : isPassable line = true := by
    rw [isPassable, hattr]
    rfl
  rcases h.passable_cases hpass hlt with ⟨-, hrun⟩ | ⟨more, rest, -, hcomment, -⟩
  · exact hrun
  · rw [commentLines_eq_none_iff.2 (isCommentLine_of_isAttributeLine hattr)] at hcomment
    cases hcomment

/-! ## Kept text -/

def keptOf (items : List Item) : List Span := (items.filterMap Item.kept?).foldl preserve []

theorem foldl_preserve_append {kept spans : List Span}
    (h : ∀ s ∈ spans, ∀ k ∈ kept, s.contains k = false) (others : List Span) :
    spans.foldl preserve (kept ++ others) = kept ++ spans.foldl preserve others := by
  induction spans generalizing others with
  | nil => rfl
  | cons s spans ih =>
    have hkept : kept.filter (fun k => !s.contains k) = kept := by
      rw [List.filter_eq_self]
      intro k hk
      rw [h s List.mem_cons_self k hk]
      rfl
    rw [List.foldl_cons, List.foldl_cons, preserve, List.filter_append, hkept, List.append_assoc]
    exact ih (fun t ht => h t (List.mem_cons_of_mem _ ht)) _

theorem exists_of_mem_keptOf {items : List Item} {k : Span} (h : k ∈ keptOf items) :
    ∃ i ∈ items, i.kept? = some k :=
  List.mem_filterMap.1 ((exists_contains_foldl_preserve [] (items.filterMap Item.kept?)).2 k h)

/-- Items further down keep what is kept above them. -/
theorem keptOf_append {items items' : List Item} (row : Nat)
    (h : ∀ i ∈ items, ∀ k, i.kept? = some k → k.start.line < row)
    (h' : ∀ i ∈ items', ∀ k, i.kept? = some k → (row : Int) ≤ k.start.line) :
    keptOf (items ++ items') = keptOf items ++ keptOf items' := by
  have hfree : ∀ s ∈ items'.filterMap Item.kept?, ∀ k ∈ keptOf items, s.contains k = false := by
    intro s hs k hk
    obtain ⟨i', hi', hs⟩ := List.mem_filterMap.1 hs
    obtain ⟨i, hi, hk⟩ := exists_of_mem_keptOf hk
    have hlow := h i hi k hk
    have hhigh := h' i' hi' s hs
    rw [Bool.eq_false_iff]
    intro hcontains
    have hstart := (contains_iff.1 hcontains).1
    rw [Position.le_def] at hstart
    omega
  have happend := foldl_preserve_append hfree []
  rw [List.append_nil] at happend
  rw [keptOf, List.filterMap_append, List.foldl_append]
  exact happend

/-- Text that is kept around other kept text stands for all of it. -/
theorem keptOf_concat (items : List Item) {i : Item} {k : Span} (hk : i.kept? = some k)
    (h : ∀ j ∈ items, ∀ s, j.kept? = some s → k.contains s = true) :
    keptOf (items ++ [i]) = [k] := by
  have hnil : (keptOf items).filter (fun s => !k.contains s) = [] := by
    rw [List.filter_eq_nil_iff]
    intro s hs
    obtain ⟨j, hj, hs⟩ := exists_of_mem_keptOf hs
    rw [h j hj s hs]
    exact Bool.false_ne_true
  rw [keptOf, List.filterMap_append, List.foldl_append, List.filterMap_cons_some hk,
    List.filterMap_nil, List.foldl_cons, List.foldl_nil, preserve, ← keptOf, hnil]
  rfl

/-- Below `above`, a survey passes the lines `ls` behind `ws`, finds nothing to organize there, and
keeps the text at `spans`. In the preamble it may keep less. -/
structure Replay (stage : Stage) (above : List Line) (ws : List Char) (ls : List Line)
    (items : List Item) (stage' : Stage) (spans : List Span) : Prop where
  passes : Passes stage above (fringe ws ls []) items stage'
  found : stage'.found = stage.found
  stays : stage ≠ .preamble → stage' ≠ .preamble
  organized : items.filterMap Item.organized? = []
  clear : Clear ((fringe ws ls []).reverse ++ above)
  kept : stage ≠ .preamble → keptOf items = spans

/-- Some kept text is met again, as it is, wherever it is put. -/
def Replays (ls : List Line) : Prop :=
  ls ≠ [] ∧ ∀ (stage : Stage) (above : List Line) (ws : List Char), Clear above →
    isBlank ws = true → ∃ items stage', Replay stage above ws ls items stage' [placed above ws ls]

theorem takeWhile_indent {ws : List Char} (hws : isBlank ws = true) (line : Line) :
    (ws ++ line.dropWhile isSpace).takeWhile isSpace = ws ∧
      (ws ++ line.dropWhile isSpace).dropWhile isSpace = line.dropWhile isSpace := by
  have htrim : (line.dropWhile isSpace).dropWhile isSpace = line.dropWhile isSpace :=
    trimStart_trimStart line
  have hdrop := trimStart_append hws (line.dropWhile isSpace)
  refine ⟨?_, hdrop.trans htrim⟩
  have hall := List.takeWhile_append_dropWhile (p := isSpace) (l := ws ++ line.dropWhile isSpace)
  rw [show (ws ++ line.dropWhile isSpace).dropWhile isSpace = line.dropWhile isSpace from
    hdrop.trans htrim] at hall
  exact List.append_cancel_right hall

/-- A comment is met again. -/
theorem replays_comment {line : Line} {more : List Line}
    (hclosed : ∀ below, commentLines line (more ++ below) = some more.length)
    (hclear : Clear (line :: more).reverse) : Replays (line.dropWhile isSpace :: more) := by
  refine ⟨List.cons_ne_nil _ _, fun stage above ws hc hws => ?_⟩
  obtain ⟨htake, hdrop⟩ := takeWhile_indent hws line
  set line' := ws ++ line.dropWhile isSpace with hline'
  have hlines : ∀ below, commentLines line' (more ++ below) = some more.length := by
    intro below
    rw [← hclosed below, commentLines_eq, commentLines_eq,
      show trimStart line' = trimStart line from hdrop]
  have hfringe : fringe ws (line.dropWhile isSpace :: more) [] = line' :: more := by
    rw [fringe_cons, rows_open]
  have hcomment : isCommentLine line' = true := by
    by_contra hnot
    have hsome := hlines []
    rw [commentLines_eq_none_iff.2 (Bool.eq_false_iff.2 hnot)] at hsome
    cases hsome
  refine ⟨stage.commentItems above line' more, stage, ?_, rfl, id, ?_, ?_, ?_⟩
  · rw [hfringe]
    exact passes_comment hlines
  · cases stage <;> rfl
  · rw [hfringe, List.reverse_cons, List.append_assoc]
    rw [List.reverse_cons] at hclear
    refine clear_append (clear_of_append hclear) (clear_cons ?_ hc)
    rw [Bool.eq_false_iff]
    intro hattr
    rw [isCommentLine_of_isAttributeLine hattr] at hcomment
    cases hcomment
  · intro hstage
    cases stage with
    | preamble => exact absurd rfl hstage
    | body found =>
      have hspan := span_commentItem above line' more
      rw [htake, hdrop] at hspan
      rw [← hspan]
      rfl

theorem isCommentLine_of_ofRest {after : List Char} (h : Trailing.ofRest after = .comment) :
    isCommentLine after = true := by
  rw [Trailing.ofRest] at h
  split at h
  · cases h
  · split at h
    · assumption
    · split at h <;> cases h

theorem keptRest_cases (after : List Char) :
    keptRest after = after ∧ Trailing.ofRest after = .comment ∨
      keptRest after = [] ∧ Trailing.ofRest after ≠ .comment := by
  by_cases h : Trailing.ofRest after = .comment
  · exact Or.inl ⟨if_pos h, h⟩
  · exact Or.inr ⟨if_neg h, h⟩

/-- A declaration that stays as it is stays so with what is kept behind it. -/
theorem not_isStatement_keptRest {above above' : List Line} {before before' first : List Char}
    {more : List Line} {after : List Char}
    (h : (declared above before first more after).isStatement = false) :
    (declared above' before' first more (keptRest after)).isStatement = false := by
  rw [isStatement_declared] at h ⊢
  rcases keptRest_cases after with ⟨hrest, -⟩ | ⟨-, hcomment⟩
  · rw [hrest]
    exact h
  · rw [Bool.and_eq_false_iff] at h ⊢
    refine Or.inl (h.resolve_right fun hne => hcomment ?_)
    simpa using hne

/-- A declaration that stays as it is, below its attributes, on lines of its own. -/
theorem passes_kept {first after : List Char} {more : List Line} (hends : Ends 0 first more)
    (ho : opensUse first = true)
    (hnot : ∀ above before, (declared above before first more (keptRest after)).isStatement = false)
    {before : List Char} (hb : isBlank before = true) {block above' above : List Line}
    (hblock : Headed above before block above') (stage : Stage) :
    ∃ i, Passes stage above (rows before first more (keptRest after)) [i] (.body stage.found) ∧
      i.organized? = none ∧ i.kept? = some (placed above' (keptIndent block before)
        (keptParts block before first more (keptRest after))) := by
  have hrest : keptRest (keptRest after) = keptRest after ∧
      (isBlank (keptRest after) = true ∨ isCommentLine (keptRest after) = true) := by
    rcases keptRest_cases after with ⟨hrest, hcomment⟩ | ⟨hrest, -⟩
    · rw [hrest]
      exact ⟨hrest, Or.inr (isCommentLine_of_ofRest hcomment)⟩
    · rw [hrest]
      exact ⟨rfl, Or.inl rfl⟩
  have hstatement := hnot above before
  refine ⟨.declaration above.length (declared above before first more (keptRest after)), ?_, ?_, ?_⟩
  · have hpass : Passes stage above _ _ _ := passes_declaration hb ho hends hrest.2
    rwa [hstatement, Bool.or_false] at hpass
  · rw [Item.organized?, hstatement]
    rfl
  · obtain ⟨k, hk⟩ := Sighting.exists_kept
      ((Sighting.isOrganized_declaration _ _ _ _ _).trans hstatement)
    have hplace := kept_declared hk hblock
    rw [hrest.1] at hplace
    rw [← hplace]
    exact hk

section Kept

variable {first after : List Char} {more : List Line} (hends : Ends 0 first more)
  (ho : opensUse first = true)
  (hnot : ∀ above before, (declared above before first more (keptRest after)).isStatement = false)
  (hshut : ∀ ws, isBlank ws = true → ∀ base,
    Clear ((rows ws first more (keptRest after)).reverse ++ base))

include hends ho hnot hshut

theorem replays_bare (before : List Char) :
    Replays (keptParts [] before first more (keptRest after)) := by
  refine ⟨keptParts_ne_nil _ _ _ _ _, fun stage base ws hc hws => ?_⟩
  have hbare : Headed ([].reverse ++ base) ws [] base := headed_append hc (by simp) (by simp) hws
  obtain ⟨i, hpass, hnone, hkept⟩ := passes_kept hends ho hnot hws hbare stage
  have hfringe : fringe ws (keptParts [] before first more (keptRest after)) [] =
      rows ws first more (keptRest after) := by
    rw [keptParts, fringe_rows, List.append_nil, List.append_nil]
  refine ⟨[i], .body stage.found, ?_, rfl, fun _ => Stage.noConfusion, ?_, ?_, fun _ => ?_⟩
  · rw [hfringe]
    exact hpass
  · rw [List.filterMap_cons_none hnone, List.filterMap_nil]
  · rw [hfringe]
    exact hshut ws hws base
  · exact keptOf_concat [] hkept (by simp)

/-- The attributes and what stands between them are passed first. -/
theorem replays_headed {before : List Char} (hb : isBlank before = true) {top : Line}
    {tail : List Line} (hattr : isAttributeLine top = true)
    (hpass : ∀ l ∈ tail, isPassable l = true)
    (htail : ∀ stage above, ∃ items stage', Commented stage above tail items stage') :
    Replays (keptParts (top :: tail) before first more (keptRest after)) := by
  refine ⟨keptParts_ne_nil _ _ _ _ _, fun stage base ws hc hws => ?_⟩
  obtain ⟨htake, hdrop⟩ := takeWhile_indent hws top
  set top' := ws ++ top.dropWhile isSpace with htop'
  have hattr' : isAttributeLine top' = true := by
    rw [isAttributeLine, show trimStart top' = trimStart top from hdrop]
    exact hattr
  have hpass' : ∀ l ∈ top' :: tail, isPassable l = true := by
    intro l hl
    rcases List.mem_cons.1 hl with rfl | hl
    · rw [isPassable, hattr']
      rfl
    · exact hpass l hl
  have hheaded : Headed ((top' :: tail).reverse ++ base) before (top' :: tail) base :=
    headed_append hc hpass' (by simpa using hattr') hb
  obtain ⟨items, stage', hitems⟩ := htail stage.leave (top' :: base)
  obtain ⟨i, hdecl, hnone, hkept⟩ := passes_kept hends ho hnot hb hheaded stage'
  have hfringe : fringe ws (keptParts (top :: tail) before first more (keptRest after)) [] =
      [top'] ++ (tail ++ rows before first more (keptRest after)) := by
    rw [keptParts, fringe_cons, rows_open]
    rfl
  have hleave : stage.leave.found = stage.found := by cases stage <;> rfl
  refine ⟨items ++ [i], .body stage'.found, ?_, hitems.found.trans hleave,
    fun _ => Stage.noConfusion, ?_, ?_, fun _ => ?_⟩
  · rw [hfringe]
    have hfirst : Passes stage base [top'] [] stage.leave := passes_attribute hattr'
    rw [List.reverse_cons, List.append_assoc] at hdecl
    exact hfirst.append (hitems.passes.append hdecl)
  · rw [List.filterMap_append, List.filterMap_cons_none hnone, List.filterMap_nil,
      List.append_nil, List.filterMap_eq_nil_iff]
    intro j hj
    obtain ⟨span, rfl, -⟩ := hitems.comments j hj
    rfl
  · rw [hfringe, List.reverse_append, List.reverse_append, List.append_assoc, List.append_assoc]
    exact hshut before hb _
  · have hplace : placed base (keptIndent (top' :: tail) before)
        (keptParts (top' :: tail) before first more (keptRest after)) =
          placed base ws (keptParts (top :: tail) before first more (keptRest after)) := by
      rw [keptIndent, keptParts, keptParts, htake, hdrop]
    rw [hplace] at hkept
    refine keptOf_concat items hkept fun j hj s hs => ?_
    obtain ⟨span, rfl, hlow, hhigh⟩ := hitems.comments j hj
    cases hs
    rw [List.length_cons] at hlow hhigh
    rw [contains_iff, start_placed, Position.le_def, Position.le_def]
    refine ⟨Or.inl (by simp only; omega), Or.inl ?_⟩
    show _ < ((base.length + (tail ++ rows before first more (keptRest after)).length : Nat) : Int)
    rw [List.length_append, length_rows]
    omega

end Kept

namespace Layout

variable {ls : List Line} {ss : List Sighting} (h : Layout ls ss)
  (hpre : Clear (ls.take (preambleLength ls)).reverse)
  {above : List Line} {before first : List Char} {more : List Line} {after : List Char}
  (hd : .declaration above before first more after ∈ ss)
  (hclosed : ∀ s, s = .declaration above before first more after ∨
    Before ss s (.declaration above before first more after) → s.Closed)

include h hpre hd hclosed

/-- Between the attributes of a declaration nothing but comments is met, wherever they are put. -/
theorem exists_commented_of_headed {top : Line} {tail above' : List Line}
    (hblock : Headed above before (top :: tail) above') (stage : Stage) (base : List Line) :
    ∃ items stage', Commented stage base tail items stage' := by
  have hb := hblock.blank (List.cons_ne_nil _ _)
  obtain ⟨hattr, -⟩ := hblock.topped top rfl
  obtain ⟨a, c, hss⟩ := List.append_of_mem hd
  obtain ⟨-, a₂, found, found', below, -, hne, -, hrun⟩ :=
    h.exists_block_run hpre hss (fun s hs => hclosed s (Or.inr (hss ▸ before_of_mem_left hs))) hb
      hblock
  have habove := hblock.above_eq
  obtain ⟨a₃, hrun'⟩ := Run.skip_attribute hrun hattr (by simp [habove]; omega)
  have hrun'' : Run ⟨found, top :: above', .line (tail ++ below)⟩ a₃
      ⟨found', tail.reverse ++ top :: above', .line below⟩ := by simpa [habove] using hrun'
  exact hrun''.exists_commented
    (fun l hl => hblock.passable l (List.mem_cons_of_mem _ hl)) hne stage base

/-- A declaration that stays as it is is met again, with its attributes. -/
theorem replays_declaration
    (hstatement : (declared above before first more after).isStatement = false)
    (ho : opensUse first = true) {block above' : List Line}
    (hblock : Headed above before block above') :
    Replays (keptParts block before first more (keptRest after)) := by
  have hends := h.ends hd
  have hnot : ∀ above before,
      (declared above before first more (keptRest after)).isStatement = false :=
    fun _ _ => not_isStatement_keptRest hstatement
  have hclear : Clear (rows before first more after).reverse := hclosed _ (Or.inl rfl) _ rfl
  have hshut : ∀ ws, isBlank ws = true → ∀ base,
      Clear ((rows ws first more (keptRest after)).reverse ++ base) := by
    intro ws hws base
    obtain ⟨y, tail, hrows, hy⟩ := exists_rows_of_opensUse ho ws more (keptRest after)
    have hline : isPassable (ws ++ y) = false := isPassable_of_opensUse hws hy
    exact clear_rows hends hclear hrows (clear_cons_of_not_isPassable hline base)
  cases block with
  | nil => exact replays_bare hends ho hnot hshut before
  | cons top tail =>
    obtain ⟨hattr, -⟩ := hblock.topped top rfl
    exact replays_headed hends ho hnot hshut (hblock.blank (List.cons_ne_nil _ _)) hattr
      (fun l hl => hblock.passable l (List.mem_cons_of_mem _ hl))
      (h.exists_commented_of_headed hpre hd hclosed hblock)

end Layout

/-! ## Documents in order -/

/-- A survey stands at a text that opens with `use`. -/
def State.Opens (st : State) : Prop :=
  ∀ before rest below, st.place = .declaration before rest below → opensUse rest = true

theorem Step.opens {st st' : State} {ss : List Sighting} (h : Step st ss st') : st'.Opens := by
  intro before rest below hplace
  cases h with
  | skip _ => cases hplace
  | comment _ => cases hplace
  | finish _ _ => cases hplace
  | stop _ _ => cases hplace
  | start sight =>
    cases hplace
    have hopens := opensUse_of_findStart (sight_eq_start sight).1
    rwa [List.drop_left] at hopens
  | next _ _ opens =>
    cases hplace
    exact opens

theorem Run.opens {st st' : State} {ss : List Sighting} (h : Run st ss st') (ho : st.Opens) :
    st'.Opens := by
  induction h with
  | nil => exact ho
  | cons step _ ih => exact ih step.opens

/-- The first line of a declaration on several lines opens with `use`. -/
theorem Layout.opensUse_first {ls : List Line} {ss : List Sighting} (h : Layout ls ss)
    {above : List Line} {before first : List Char} {next : Line} {more : List Line}
    {after : List Char} (hd : .declaration above before first (next :: more) after ∈ ss) :
    opensUse first = true := by
  obtain ⟨st, hrun⟩ := h.run
  obtain ⟨a, c, rfl⟩ := List.append_of_mem hd
  obtain ⟨st₁, st₂, hrun₁, hstep, -⟩ := hrun.split
  have hopens := hrun₁.opens (fun _ _ _ hplace => by cases hplace)
  obtain ⟨found, rest, below, below', rfl, hstands⟩ := hstep.exists_stands
  have hrows := hstands.rows
  rw [rows_cons, List.cons_append] at hrows
  rw [← List.append_cancel_left (List.cons.inj hrows).1]
  exact hopens before rest below rfl

/-- A document in which things can be told apart wherever they are moved, up to the end of the
region `r` of its imports: no attribute is in sight from below of something that it is inside of,
what stays as it is opens with `use` by itself, the code behind the last import is no attribute, and
the imports are such as can be printed and read again. -/
structure Orderly (text : List Char) (r : Span) : Prop where
  preamble : Clear ((lines text).take (preambleLength (lines text))).reverse
  closed : ∀ i ∈ (survey (lines text)).items, i.span.stop ≤ r.stop →
    Clear (linesOf (lines text) i.span).reverse
  opens : ∀ d ∈ (survey (lines text)).declarations, d.span.stop ≤ r.stop → d.isStatement = false →
    opensUse (excerpt text d.span) = true
  behind : isAttributeLine (lineAt text r.stop).2 = false
  imports : ∀ s ∈ (scan text).value.statements,
    Statement.Visible s.visibility ∧ s.tree.NoDoubleSelf

namespace Layout

variable {text : List Char} {ss : List Sighting} (h : Layout (lines text) ss) {r : Span}
  (ho : Orderly text r)

include h ho

/-- What comes up to the end of the imports is closed. -/
theorem closed_upTo {t : Sighting} (ht : t ∈ ss) (hstop : t.stop ≤ r.stop) {s : Sighting}
    (hs : s = t ∨ Before ss s t) : s.Closed := by
  intro i hi
  have hmem : s ∈ ss := by
    rcases hs with rfl | hbefore
    · exact ht
    · exact hbefore.mem_left
  have hle : s.stop ≤ r.stop := by
    rcases hs with rfl | hbefore
    · exact hstop
    · exact Position.le_trans (h.stop_le_start hbefore)
        (Position.le_trans (Sighting.start_le_stop t) hstop)
  rw [← (h.lies hmem).linesOf_eq hi]
  exact ho.closed i (h.mem_items hmem hi) (Position.le_trans (Sighting.span_within hi).2 hle)

/-- A declaration that stays as it is opens with `use` on its first line. -/
theorem opensUse_of_stays {above : List Line} {before first : List Char} {more : List Line}
    {after : List Char} (hd : .declaration above before first more after ∈ ss)
    (hstop : (Sighting.declaration above before first more after).stop ≤ r.stop)
    (hstatement : (declared above before first more after).isStatement = false) :
    opensUse first = true := by
  cases more with
  | cons next more => exact h.opensUse_first hd
  | nil =>
    have hopens := ho.opens _ (Survey.mem_declarations (h.mem_items hd rfl)) hstop hstatement
    obtain ⟨below, hlies⟩ := h.lies hd
    have hexcerpt : excerpt text (declared above before first [] after).span = unlines [first] :=
      excerpt_placed (List.cons_ne_nil _ _) hlies
    rw [hexcerpt, unlines, List.intercalate_singleton] at hopens
    exact hopens

/-- What is kept above something is met again. -/
theorem replays_of_before {s t : Sighting} (hst : Before ss s t) (hstop : t.stop ≤ r.stop)
    {k : Span} (hk : s.kept? = some k) : Replays (lines (excerpt text k)) := by
  have hs : s ∈ ss := hst.mem_left
  have hsstop : s.stop ≤ r.stop := Position.le_trans (h.stop_le_start hst)
    (Position.le_trans (Sighting.start_le_stop t) hstop)
  cases s with
  | passed _ _ => cases hk
  | comment above line more =>
    rw [(keeps_comment (h.lies hs) hk).lines_excerpt]
    exact replays_comment (h.commentLines_of_before hst)
      (h.closed_upTo ho hs hsstop (Or.inl rfl) _ rfl)
  | declaration above before first more after =>
    obtain ⟨block, above', hblock⟩ := exists_headed above before
    obtain ⟨hstatement, -⟩ := Declaration.kept?_eq_some hk
    rw [(keeps_declaration (h.lies hs) hk hblock).lines_excerpt]
    exact h.replays_declaration ho.preamble hs (fun _ hu => h.closed_upTo ho hs hsstop hu)
      hstatement (h.opensUse_of_stays ho hs hsstop hstatement) hblock

end Layout

end TidyUse.Document
