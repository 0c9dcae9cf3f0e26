import TidyUse.Proofs.KeptLines
import TidyUse.Proofs.Pieces
import TidyUse.Proofs.Replay
import TidyUse.Proofs.Scanning

/-!
# Kept text stays in its place

* `flatMap_filter_eq` : sorted members, collected key by key;
* `pairwise_statementsFrom`, `statementsFrom_comment` : blocks are counted upwards, and a comment
  closes a block;
* `Layout.pairwise_preserved`, `Layout.exists_block_below` : text is kept in the order of the
  document, each above a block;
* `Layout.comment_divides` : the block below a comment divides the statements before the comment
  from those behind it;
* `Unused.sublist_filter` : what remains of the statements stays in its place;
* `organize_keeps_in_place` : kept text is found again in order, and each comment between what
  remains of the statements before it and behind it.
-/

namespace TidyUse

/-- Members in the order of their keys, collected key by key, are the members. -/
theorem flatMap_filter_eq {α κ : Type} [BEq κ] [LawfulBEq κ] {r : κ → κ → Prop}
    (hirr : ∀ k, ¬ r k k) (f : α → κ) {ks : List κ} (hks : ks.Pairwise r) {xs : List α}
    (hxs : xs.Pairwise fun x y => ¬ r (f y) (f x)) (hmem : ∀ x ∈ xs, f x ∈ ks) :
    ks.flatMap (fun k => xs.filter fun x => f x == k) = xs := by
  induction xs with
  | nil => simp
  | cons x xs ih =>
    obtain ⟨hx, hxs⟩ := List.pairwise_cons.1 hxs
    have hrest := ih hxs fun y hy => hmem y (List.mem_cons_of_mem _ hy)
    obtain ⟨as, bs, rfl⟩ := List.append_of_mem (hmem x List.mem_cons_self)
    obtain ⟨-, hbs, hlt⟩ := List.pairwise_append.1 hks
    -- the keys before that of the first member are those of no member
    have hbefore : ∀ k ∈ as, (x :: xs).filter (fun y => f y == k) = [] := by
      intro k hk
      rw [List.filter_eq_nil_iff]
      intro y hy heq
      rw [beq_iff_eq] at heq
      have hr := hlt k hk (f x) List.mem_cons_self
      rcases List.mem_cons.1 hy with rfl | hy
      · exact hirr _ (heq ▸ hr)
      · exact hx y hy (heq ▸ hr)
    have hbehind : ∀ k ∈ bs, (x :: xs).filter (fun y => f y == k) = xs.filter fun y => f y == k := by
      intro k hk
      refine List.filter_cons_of_neg fun heq => ?_
      have hr := (List.pairwise_cons.1 hbs).1 k hk
      rw [beq_iff_eq] at heq
      exact hirr k (heq ▸ hr)
    have hnone : ∀ k ∈ as, xs.filter (fun y => f y == k) = [] := fun k hk =>
      List.eq_nil_of_sublist_nil (hbefore k hk ▸ (List.sublist_cons_self x xs).filter _)
    rw [List.flatMap_append, List.flatMap_cons] at hrest ⊢
    rw [List.flatMap_eq_nil_iff.2 hnone, List.nil_append] at hrest
    rw [List.flatMap_eq_nil_iff.2 hbefore, List.nil_append, List.filter_cons_of_pos (by simp),
      List.cons_append]
    congr 1
    rw [← hrest]
    congr 1
    · rw [hrest]
    · rw [hrest]
      exact List.flatMap_congr hbehind

/-- The place of a declaration and its block. -/
def Statement.site (s : Statement) : Option Span × Option Int := (s.span, s.block)

/-- A declaration without some of its imports stays in its place, if it stays. -/
theorem Unused.sublist_rebuild (gone : List Place) (s : Statement) (i : Nat) :
    List.Sublist ((rebuild gone s i).value.map Statement.site) [s.site] := by
  unfold rebuild
  dsimp only
  split
  · split
    · exact List.Sublist.refl _
    · exact List.nil_sublist _
  · split
    · exact List.Sublist.refl _
    · exact List.Sublist.refl _

/-- Declarations without some of their imports stay in their places. -/
theorem Unused.sublist_filter (spans : List Span) (statements : List Statement) :
    List.Sublist ((filter spans statements).value.map Statement.site)
      (statements.map Statement.site) := by
  have hall : ∀ (gone : List Place) (ps : List (Statement × Nat)),
      List.Sublist ((ps.flatMap fun p => (rebuild gone p.1 p.2).value).map Statement.site)
        ((ps.map Prod.fst).map Statement.site) := by
    intro gone ps
    induction ps with
    | nil => exact List.Sublist.refl _
    | cons p ps ih =>
      rw [List.flatMap_cons, List.map_append]
      exact (sublist_rebuild gone p.1 p.2).append ih
  rw [filter, Traced.value_bind, Traced.value_flatMap]
  have hsites := hall (dropped spans (placed statements)).value statements.zipIdx
  rwa [List.zipIdx_map_fst] at hsites

namespace Document

open Text

/-! ## The blocks of a document -/

theorem block_of_mem_statementsFrom {block : Nat} {hasMembers : Bool} {items : List Item}
    {s : Statement} (hs : s ∈ statementsFrom block hasMembers items) :
    ∃ k : Nat, s.block = some (k : Int) ∧ block ≤ k := by
  induction items generalizing block hasMembers with
  | nil => exact absurd hs List.not_mem_nil
  | cons item items ih =>
    rw [statementsFrom] at hs
    split at hs
    · rename_i t ht
      rcases List.mem_cons.1 hs with rfl | hs
      · obtain ⟨d, -, hd⟩ := Option.bind_eq_some_iff.1 ht
        exact ⟨block, (Declaration.statement?_eq_some hd).2.2.2.2, Nat.le_refl _⟩
      · exact ih hs
    · obtain ⟨k, hk, hle⟩ := ih hs
      refine ⟨k, hk, ?_⟩
      split at hle <;> omega

/-- Blocks are counted upwards. -/
theorem pairwise_statementsFrom (block : Nat) (hasMembers : Bool) (items : List Item) :
    (statementsFrom block hasMembers items).Pairwise fun s t => ¬ t.block < s.block := by
  induction items generalizing block hasMembers with
  | nil => exact .nil
  | cons item items ih =>
    rw [statementsFrom]
    split
    · rename_i s hs
      obtain ⟨d, -, hd⟩ := Option.bind_eq_some_iff.1 hs
      refine .cons (fun t ht => ?_) (ih _ _)
      obtain ⟨k, hk, hle⟩ := block_of_mem_statementsFrom ht
      rw [hk, (Declaration.statement?_eq_some hd).2.2.2.2, Option.some_lt_some]
      omega
    · exact ih _ _

/-- A comment closes a block. -/
theorem statementsFrom_comment (block : Nat) (hasMembers : Bool) (above : List Item) (c : Span)
    (below : List Item) :
    ∃ k : Nat, statementsFrom block hasMembers (above ++ .comment c :: below) =
        statementsFrom block hasMembers above ++ statementsFrom k false below ∧
      (∀ s ∈ statementsFrom block hasMembers above, ∃ j : Nat, s.block = some (j : Int) ∧ j < k) ∧
        block ≤ k ∧ (hasMembers = true → block < k) := by
  induction above generalizing block hasMembers with
  | nil =>
    refine ⟨if hasMembers then block + 1 else block, rfl, fun s hs => absurd hs List.not_mem_nil, ?_⟩
    split
    · exact ⟨Nat.le_succ _, fun _ => Nat.lt_succ_self _⟩
    · rename_i hnone
      exact ⟨Nat.le_refl _, fun hsome => absurd hsome hnone⟩
  | cons item above ih =>
    rw [List.cons_append, statementsFrom, statementsFrom]
    split
    · rename_i s hs
      obtain ⟨d, -, hd⟩ := Option.bind_eq_some_iff.1 hs
      obtain ⟨k, heq, hlt, -, hmembers⟩ := ih block true
      have hk := hmembers rfl
      refine ⟨k, by rw [heq]; rfl, fun t ht => ?_, hk.le, fun _ => hk⟩
      rcases List.mem_cons.1 ht with rfl | ht
      · exact ⟨block, (Declaration.statement?_eq_some hd).2.2.2.2, hk⟩
      · exact hlt t ht
    · obtain ⟨k, heq, hlt, hle, -⟩ := ih (if hasMembers then block + 1 else block) false
      refine ⟨k, heq, hlt, ?_, fun hmembers => ?_⟩
      · split at hle <;> omega
      · rw [if_pos hmembers] at hle
        exact hle

theorem exists_of_nextBlock {scan : Scan} {k : Span} {b : Option Int}
    (hb : nextBlock scan k = some b) :
    ∃ d ∈ scan.statements, d.block = b ∧ ∃ t, d.span = some t ∧ k.start < t.start := by
  obtain ⟨d, hfind, hblock⟩ := Option.map_eq_some_iff.1 hb
  have hany := List.find?_some hfind
  obtain ⟨t, ht, hlt⟩ := (Option.any_eq_true _ _).1 hany
  exact ⟨d, List.mem_of_find?_eq_some hfind, hblock, t, ht, of_decide_eq_true hlt⟩

/-- No statement behind some text belongs to a block before the next one. -/
theorem not_block_lt_nextBlock {text : List Char} {k : Span} {b : Option Int}
    (hb : nextBlock (scan text).value k = some b) {s : Statement}
    (hs : s ∈ (scan text).value.statements) {t : Span} (ht : s.span = some t)
    (hlt : k.start < t.start) : ¬ s.block < b := by
  obtain ⟨d, hfind, rfl⟩ := Option.map_eq_some_iff.1 hb
  obtain ⟨-, as, bs, hsplit, hnone⟩ := List.find?_eq_some_iff_append.1 hfind
  have hpair : (scan text).value.statements.Pairwise fun s t => ¬ t.block < s.block :=
    pairwise_statementsFrom 0 false _
  rw [hsplit] at hs hpair
  rcases List.mem_append.1 hs with hs | hs
  · have hnot := hnone s hs
    simp [ht, hlt] at hnot
  · rcases List.mem_cons.1 hs with rfl | hs
    · obtain ⟨i, hi, -⟩ := block_of_mem_statementsFrom (List.mem_of_find?_eq_some hfind)
      rw [hi, Option.some_lt_some]
      exact lt_irrefl _
    · exact (List.pairwise_cons.1 (List.pairwise_append.1 hpair).2.1).1 s hs

/-! ## Kept text in order -/

theorem pairwise_foldl_preserve {kept spans : List Span}
    (hstops : (kept ++ spans).Pairwise fun k l => k.stop ≤ l.stop)
    (hkept : kept.Pairwise fun k l => k.start < l.start) :
    (spans.foldl preserve kept).Pairwise fun k l => k.start < l.start := by
  induction spans generalizing kept with
  | nil => exact hkept
  | cons s spans ih =>
    refine ih (hstops.sublist ?_) (List.pairwise_append.2 ⟨hkept.filter _, by simp, ?_⟩)
    · rw [preserve, List.append_assoc]
      exact List.filter_sublist.append_right _
    · -- what ends before the new text and is no part of it starts before it
      intro k hk l hl
      obtain ⟨hk, hnot⟩ := List.mem_filter.1 hk
      rw [List.mem_singleton.1 hl]
      have hle := (List.pairwise_append.1 hstops).2.2 k hk s List.mem_cons_self
      simp only [Span.contains, Bool.not_eq_true', Bool.and_eq_false_iff, decide_eq_false_iff_not,
        Position.le_def, Position.lt_def] at hnot hle ⊢
      omega

theorem pairwise_of_before {ss : List Sighting} {r : Sighting → Sighting → Prop}
    (h : ∀ s t, Before ss s t → r s t) : ss.Pairwise r := by
  rw [List.pairwise_iff_forall_sublist]
  intro s t hst
  have happend : List.Sublist ([s] ++ [t]) ss := hst
  obtain ⟨left, right, rfl, hs, ht⟩ := List.append_sublist_iff.1 happend
  obtain ⟨a, b, rfl⟩ := List.append_of_mem (List.singleton_sublist.1 hs)
  obtain ⟨c, d, rfl⟩ := List.append_of_mem (List.singleton_sublist.1 ht)
  exact h s t ⟨a, b ++ c, d, by simp⟩

theorem Sighting.not_organized_of_kept {s : Sighting} {k : Span} (hk : s.kept? = some k) :
    s.isOrganized = false := by
  cases s with
  | passed _ _ => cases hk
  | comment _ _ _ => rfl
  | declaration above before first more after =>
    rw [Sighting.isOrganized_declaration]
    exact (Declaration.kept?_eq_some hk).1

theorem closesComment_of_linesToClose {text : List Char} {more : List Line} {last next : Line}
    {below : List Line}
    (h : linesToClose text (more ++ last :: next :: below) = more.length + 1) :
    closesComment last = true := by
  induction more generalizing text with
  | nil =>
    rw [List.nil_append, linesToClose] at h
    split at h
    · cases h
    · rw [linesToClose] at h
      split at h
      · assumption
      · cases h
  | cons line more ih =>
    rw [List.cons_append, linesToClose] at h
    split at h
    · cases h
    · exact ih (Nat.succ.inj h)

/-- Kept text does not end with a line end if its last line is not empty. -/
theorem Keeps.filled {text : List Char} {k : Span} {parts : List Line}
    (h : Keeps (lines text) k parts) {last : Line} (hlast : parts.getLast? = some last)
    (hne : last ≠ []) : Filled (excerpt text k) := by
  obtain ⟨above, hparts⟩ := List.getLast?_eq_some_iff.1 hlast
  obtain ⟨y, c, rfl⟩ := (List.eq_nil_or_concat' last).resolve_left hne
  obtain ⟨z, hz⟩ := intercalate_ends ['\n'] above y c
  refine ⟨z, c, by rw [h.excerpt_eq, hparts]; exact hz, ?_⟩
  rintro rfl
  have hmem : y ++ ['\n'] ∈ lines (excerpt text k) := by
    rw [h.lines_excerpt, hparts]
    exact List.mem_append_right _ List.mem_cons_self
  exact newline_not_mem hmem (by simp)

theorem getLast?_keptParts (block : List Line) (before first : List Char) (more : List Line)
    (rest : List Char) : ∃ before', (keptParts block before first more rest).getLast? =
      some (lastRow before' first more ++ rest) := by
  cases block with
  | nil => exact ⟨[], by rw [keptParts, rows, List.getLast?_concat]⟩
  | cons top tail =>
    refine ⟨before, ?_⟩
    rw [keptParts, rows, ← List.append_assoc, ← List.cons_append, List.getLast?_concat]

namespace Layout

section Kept

variable {ls : List Line} {ss : List Sighting} (h : Layout ls ss)

include h

/-- Kept text ends behind the start of what it comes from. -/
theorem start_lt_kept_stop {s : Sighting} (hs : s ∈ ss) {k : Span} (hk : s.kept? = some k) :
    s.start < k.stop := by
  cases s with
  | passed _ _ => cases hk
  | comment above line more =>
    cases hk
    exact h.start_lt_span_stop hs rfl
  | declaration above before first more after =>
    have hlt := h.start_lt_stop hs rfl
    have hle := (Sighting.kept_bounds rfl hk).2
    simp only [Position.le_def, Position.lt_def] at *
    omega

/-- Text is kept in the order of the document. -/
theorem pairwise_preserved :
    (survey ls).preserved.Pairwise fun k l => k.start < l.start := by
  rw [h.preserved_eq]
  refine pairwise_foldl_preserve ?_ .nil
  rw [List.nil_append, List.pairwise_filterMap]
  refine pairwise_of_before fun s t hst k hk l hl => ?_
  have ht : t ∈ ss := hst.mem_right
  have hle := h.kept_stop_le_start hst hk
  have hlt := h.start_lt_kept_stop ht hl
  simp only [Position.le_def, Position.lt_def] at *
  omega

/-- Kept text of the region stands before the last declaration. -/
theorem before_last {first last : Sighting} (hb : Bounds ss first last) {s : Sighting} (hs : s ∈ ss)
    {k : Span} (hk : s.kept? = some k) (hstop : k.stop ≤ last.stop) : Before ss s last := by
  refine (hb.cases_of_not_organized hs (Sighting.not_organized_of_kept hk)).2.resolve_right
    fun hbefore => ?_
  have hle := h.stop_le_start hbefore
  have hlt := h.start_lt_kept_stop hs hk
  simp only [Position.le_def, Position.lt_def] at *
  omega

theorem exists_before_last {r k : Span} (hr : (survey ls).region = some r)
    (hk : k ∈ (survey ls).preserved) (hin : r.contains k = true) :
    ∃ s last, Before ss s last ∧ s.kept? = some k ∧ last.isOrganized = true := by
  obtain ⟨first, last, hb, rfl⟩ := h.exists_bounds hr
  rw [h.preserved_eq] at hk
  obtain ⟨s, hs, hsk⟩ := List.mem_filterMap.1 ((exists_contains_foldl_preserve [] _).2 k hk)
  exact ⟨s, last, h.before_last hb hs hsk (contains_iff.1 hin).2, hsk, hb.last_organized⟩

end Kept

section Text

variable {text : List Char} {ss : List Sighting} (h : Layout (lines text) ss)

include h

/-- Kept text with something behind it does not end with a line end. -/
theorem filled_kept {s t : Sighting} (hst : Before ss s t) {k : Span} (hk : s.kept? = some k) :
    Filled (excerpt text k) := by
  have hs : s ∈ ss := hst.mem_left
  cases s with
  | passed _ _ => cases hk
  | comment above line more =>
    have hkeeps := keeps_comment (h.lies hs) hk
    rcases List.eq_nil_or_concat' more with rfl | ⟨more, last, rfl⟩
    · refine hkeeps.filled rfl fun hnil => ?_
      have hblank : isBlank line = true := trimStart_eq_nil_iff.1 hnil
      rw [h.isBlank_comment hs] at hblank
      cases hblank
    · -- a comment of several lines is closed on the last of them
      have hclosed := h.commentLines_of_before hst [[]]
      refine hkeeps.filled (by rw [← List.cons_append, List.getLast?_concat]) ?_
      rintro rfl
      rw [commentLines, List.append_assoc, List.length_append] at hclosed
      split at hclosed
      · cases hclosed
      · cases closesComment_of_linesToClose (Option.some.inj hclosed)
      · cases hclosed
  | declaration above before first more after =>
    obtain ⟨block, above', hblock⟩ := exists_headed above before
    obtain ⟨before', hlast⟩ := getLast?_keptParts block before first more (keptRest after)
    refine (keeps_declaration (h.lies hs) hk hblock).filled hlast fun hnil => ?_
    have hblank := isBlank_lastRow (h.ends hs) before' (keptRest after)
    rw [hnil] at hblank
    cases hblank

theorem filled_preserved {r k : Span} (hr : (scan text).value.region = some r)
    (hk : k ∈ (scan text).value.preserved) (hin : r.contains k = true) :
    Filled (excerpt text k) := by
  obtain ⟨s, last, hbefore, hsk, -⟩ := h.exists_before_last hr hk hin
  exact h.filled_kept hbefore hsk

/-- Kept text of the region has a block below it. -/
theorem exists_block_below {r k : Span} (hr : (scan text).value.region = some r)
    (hk : k ∈ (scan text).value.preserved) (hin : r.contains k = true) :
    ∃ b ∈ (scan text).value.blocks, nextBlock (scan text).value k = some b := by
  obtain ⟨s, last, hbefore, hsk, horganized⟩ := h.exists_before_last hr hk hin
  obtain ⟨above, before, first, more, after, rfl, hstatement⟩ :=
    Sighting.exists_of_isOrganized horganized
  have hmem : .declaration above before first more after ∈ ss := hbefore.mem_right
  obtain ⟨t, ht, j, hj⟩ := exists_mem_statementsFrom (h.mem_items hmem rfl) hstatement 0 false
  have hspan := (Declaration.statement?_eq_some hj).2.2.2.1
  have hbehind : ∃ s ∈ (scan text).value.statements, ∃ u, s.span = some u ∧ k.start < u.start :=
    ⟨t, ht, _, hspan, h.kept_start_lt hbefore hsk⟩
  obtain ⟨d, hd, hnext⟩ := exists_nextBlock hbehind
  exact ⟨d.block, mem_distinct.2 (List.mem_map_of_mem hd), hnext⟩

end Text

end Layout

/-! ## Comments divide the statements -/

def Survey.comments (s : Survey) : List Span :=
  s.items.filterMap fun
    | .comment span => some span
    | .declaration _ _ => none

theorem Survey.mem_comments {s : Survey} {c : Span} :
    c ∈ s.comments ↔ Item.comment c ∈ s.items := by
  refine ⟨fun h => ?_, fun h => List.mem_filterMap.2 ⟨_, h, rfl⟩⟩
  obtain ⟨item, hitem, hc⟩ := List.mem_filterMap.1 h
  cases item with
  | comment span => exact Option.some.inj hc ▸ hitem
  | declaration _ _ => cases hc

theorem Sighting.isDeclaration_of_isOrganized {s : Sighting} (h : s.isOrganized = true) :
    s.isDeclaration = true := by
  obtain ⟨above, before, first, more, after, rfl, -⟩ := Sighting.exists_of_isOrganized h
  rfl

/-- A statement stands where its declaration was met. -/
theorem exists_sighting_of_mem {block : Nat} {hasMembers : Bool} {ss : List Sighting}
    {s : Statement} (hs : s ∈ statementsFrom block hasMembers (ss.filterMap Sighting.item?)) :
    ∃ e ∈ ss, s.span = some ⟨e.start, e.stop⟩ ∧ e.isOrganized = true := by
  obtain ⟨row, d, k, hd, hk⟩ := mem_statementsFrom hs
  obtain ⟨hstatement, -, -, hspan, -⟩ := Declaration.statement?_eq_some hk
  obtain ⟨e, he, hitem⟩ := List.mem_filterMap.1 hd
  cases e with
  | passed _ _ => cases hitem
  | comment _ _ _ => cases hitem
  | declaration above before first more after =>
    cases hitem
    exact ⟨_, he, hspan, (Sighting.isOrganized_declaration ..).trans hstatement⟩

/-- The block below a comment divides the statements before the comment from those behind it. -/
theorem Layout.comment_divides {text : List Char} {ss : List Sighting}
    (h : Layout (lines text) ss) {c : Span} (hc : c ∈ (survey (lines text)).comments)
    {b : Option Int} (hb : nextBlock (scan text).value c = some b) {s : Statement}
    (hs : s ∈ (scan text).value.statements) :
    ∃ span, s.span = some span ∧
      (s.block < b ∧ span.stop ≤ c.start ∨ ¬ s.block < b ∧ c.stop ≤ span.start) := by
  have hitems := Survey.mem_comments.1 hc
  rw [h.items] at hitems
  obtain ⟨e, he, hitem⟩ := List.mem_filterMap.1 hitems
  have hkept : e.kept? = some c := by rw [Sighting.kept?, hitem]; rfl
  have hstart : e.start ≤ c.start := by
    cases e with
    | passed _ _ => cases hitem
    | declaration _ _ _ _ _ => cases hitem
    | comment above line more =>
      cases hitem
      exact Or.inr ⟨rfl, Int.natCast_nonneg _⟩
  obtain ⟨above, below, rfl⟩ := List.append_of_mem he
  obtain ⟨k, hsplit, habove, -, -⟩ := statementsFrom_comment 0 false
    (above.filterMap Sighting.item?) c (below.filterMap Sighting.item?)
  have hstatements : (scan text).value.statements =
      statementsFrom 0 false (above.filterMap Sighting.item?) ++
        statementsFrom k false (below.filterMap Sighting.item?) := by
    rw [← hsplit, ← List.filterMap_cons_some hitem, ← List.filterMap_append, ← h.items]
    rfl
  have hbefore : ∀ t ∈ statementsFrom 0 false (above.filterMap Sighting.item?),
      ∃ span, t.span = some span ∧ span.start < span.stop ∧ span.stop ≤ c.start := by
    intro t ht
    obtain ⟨f, hf, hspan, horganized⟩ := exists_sighting_of_mem ht
    have hdecl := Sighting.isDeclaration_of_isOrganized horganized
    exact ⟨_, hspan, h.start_lt_stop (List.mem_append_left _ hf) hdecl,
      Position.le_trans (h.stop_le_start (before_of_mem_left hf)) hstart⟩
  have hbehind : ∀ t ∈ statementsFrom k false (below.filterMap Sighting.item?),
      ∃ span, t.span = some span ∧ c.start < span.start ∧ c.stop ≤ span.start := by
    intro t ht
    obtain ⟨f, hf, hspan, -⟩ := exists_sighting_of_mem ht
    exact ⟨_, hspan, h.kept_start_lt (before_of_mem_right hf) hkept,
      h.kept_stop_le_start (before_of_mem_right hf) hkept⟩
  -- the first statement behind the comment is one below it
  obtain ⟨d, hd, rfl, span, hspan, hlt⟩ := exists_of_nextBlock hb
  have hdbelow : d ∈ statementsFrom k false (below.filterMap Sighting.item?) := by
    rw [hstatements] at hd
    refine (List.mem_append.1 hd).resolve_left fun hmem => ?_
    obtain ⟨span', hspan', hlt', hle⟩ := hbefore d hmem
    cases hspan.symm.trans hspan'
    simp only [Position.le_def, Position.lt_def] at hlt hlt' hle
    omega
  obtain ⟨i, hi, hki⟩ := block_of_mem_statementsFrom hdbelow
  rcases List.mem_append.1 (hstatements ▸ hs) with hmem | hmem
  · obtain ⟨span, hspan, -, hle⟩ := hbefore s hmem
    obtain ⟨j, hj, hjk⟩ := habove s hmem
    refine ⟨span, hspan, Or.inl ⟨?_, hle⟩⟩
    rw [hi, hj, Option.some_lt_some]
    omega
  · obtain ⟨span, hspan, hlt, hle⟩ := hbehind s hmem
    exact ⟨span, hspan, Or.inr ⟨not_block_lt_nextBlock hb hs hspan hlt, hle⟩⟩

/-! ## What remains of the statements -/

theorem sublist_remaining (options : Options) (unused : Option (List Span))
    (statements : List Statement) :
    List.Sublist ((remaining options unused statements).value.map Statement.site)
      (statements.map Statement.site) := by
  unfold remaining
  split
  · exact Unused.sublist_filter _ _
  · exact List.Sublist.refl _

theorem exists_of_mem_remaining {options : Options} {unused : Option (List Span)}
    {statements : List Statement} {s : Statement}
    (hs : s ∈ (remaining options unused statements).value) :
    ∃ t ∈ statements, t.span = s.span ∧ t.block = s.block := by
  have hsite := (sublist_remaining options unused statements).subset (List.mem_map_of_mem hs)
  obtain ⟨t, ht, hsame⟩ := List.mem_map.1 hsite
  exact ⟨t, ht, congrArg Prod.fst hsame, congrArg Prod.snd hsame⟩

/-! ## The pieces in order -/

/-- The blocks of a document, from the first to the last. -/
theorem pairwise_blocks (text : List Char) : (scan text).value.blocks.Pairwise (· < ·) := by
  have hpair : ((scan text).value.statements.map Statement.block).Pairwise fun a b => ¬ b < a :=
    List.pairwise_map.2 (pairwise_statementsFrom 0 false _)
  have hboth := (hpair.sublist (distinct_sublist _)).and (nodup_distinct _)
  refine hboth.imp_of_mem fun {a b} ha hb hab => ?_
  obtain ⟨s, hs, rfl⟩ := List.mem_map.1 (mem_distinct.1 ha)
  obtain ⟨t, ht, rfl⟩ := List.mem_map.1 (mem_distinct.1 hb)
  obtain ⟨i, hi, -⟩ := block_of_mem_statementsFrom hs
  obtain ⟨j, hj, -⟩ := block_of_mem_statementsFrom ht
  simp only [hi, hj, Option.some_lt_some, ne_eq, Option.some.injEq] at hab ⊢
  omega

/-- Text further down has no block before that of text further up. -/
theorem nextBlock_mono {text : List Char} {k l : Span} (hlt : k.start < l.start)
    {b b' : Option Int} (hb : nextBlock (scan text).value k = some b)
    (hb' : nextBlock (scan text).value l = some b') : ¬ b' < b := by
  obtain ⟨d, hd, rfl, span, hspan, hlt'⟩ := exists_of_nextBlock hb'
  refine not_block_lt_nextBlock hb hd hspan ?_
  simp only [Position.lt_def] at *
  omega

section Assembly

variable (scan : Scan) (statements added : List Statement)

theorem kept_pieces : (pieces scan statements added).filterMap Piece.kept? =
    scan.blocks.flatMap (headerSpans scan) := by
  rw [pieces, List.filterMap_flatMap]
  refine List.flatMap_congr fun block _ => ?_
  rw [blockPieces, List.filterMap_append, List.filterMap_map]
  have hkept : (headerSpans scan block).filterMap (Piece.kept? ∘ Piece.kept) =
      headerSpans scan block := List.filterMap_some
  rw [hkept]
  exact List.append_nil _

omit scan statements added in
theorem statements_kept (ks : List Span) : (ks.map Piece.kept).flatMap Piece.statements = [] := by
  rw [List.flatMap_map]
  exact List.flatMap_eq_nil_iff.2 fun _ _ => rfl

theorem statements_blockPieces (block : Option Int) :
    (blockPieces scan statements added block).flatMap Piece.statements =
      blockStatements scan statements added block := by
  rw [blockPieces, List.flatMap_append, statements_kept, List.flatMap_singleton]
  rfl

theorem statements_pieces : (pieces scan statements added).flatMap Piece.statements =
    scan.blocks.flatMap (blockStatements scan statements added) := by
  rw [pieces, List.flatMap_assoc]
  exact List.flatMap_congr fun block _ => statements_blockPieces scan statements added block

end Assembly

theorem not_lt_self {α : Type} [LT α] (h : ∀ a : α, ¬ a < a) (o : Option α) : ¬ o < o := by
  cases o with
  | none => exact Option.not_lt_none
  | some a => exact fun hlt => h a (Option.some_lt_some.1 hlt)

theorem not_lt_of_block_lt {a b : Option Int} (h : a < b) : ¬ b < a := by
  cases a with
  | none => exact Option.not_lt_none
  | some i =>
    cases b with
    | none => exact absurd h Option.not_lt_none
    | some j => simpa only [Option.some_lt_some, not_lt] using (Option.some_lt_some.1 h).le

/-- All the kept text of the region goes above some block, in order. -/
theorem flatMap_headerSpans {text : List Char} {r : Span}
    (hr : (scan text).value.region = some r) :
    (scan text).value.blocks.flatMap (headerSpans (scan text).value) =
      (scan text).value.preserved.filter fun k => r.contains k := by
  obtain ⟨ss, h⟩ := exists_layout (lines text)
  have hblocks : ((scan text).value.blocks.map some).Pairwise (· < ·) :=
    List.pairwise_map.2 ((pairwise_blocks text).imp fun hlt => Option.some_lt_some.2 hlt)
  have hnext : ∀ k ∈ (scan text).value.preserved.filter (fun k => r.contains k),
      ∃ b ∈ (scan text).value.blocks, nextBlock (scan text).value k = some b := by
    intro k hk
    obtain ⟨hk, hin⟩ := List.mem_filter.1 hk
    exact h.exists_block_below hr hk hin
  have horder : ((scan text).value.preserved.filter fun k => r.contains k).Pairwise fun k l =>
      ¬ nextBlock (scan text).value l < nextBlock (scan text).value k := by
    refine (h.pairwise_preserved.filter _).imp_of_mem fun {k l} hk hl hlt => ?_
    obtain ⟨b, -, hb⟩ := hnext k hk
    obtain ⟨b', -, hb'⟩ := hnext l hl
    rw [hb, hb', Option.some_lt_some]
    exact nextBlock_mono hlt hb hb'
  have hall := flatMap_filter_eq (not_lt_self (not_lt_self lt_irrefl)) _ hblocks horder
    fun k hk => by
      obtain ⟨b, hb, hkb⟩ := hnext k hk
      exact hkb ▸ List.mem_map_of_mem hb
  rw [List.flatMap_map] at hall
  rw [← hall]
  refine List.flatMap_congr fun block _ => ?_
  rw [headerSpans, hr]
  rfl

section Remaining

variable (options : Options) (unused : Option (List Span)) {text : List Char}

theorem mem_blocks_of_remaining {s : Statement}
    (hs : s ∈ (remaining options unused (scan text).value.statements).value) :
    s.block ∈ (scan text).value.blocks := by
  obtain ⟨t, ht, -, hblock⟩ := exists_of_mem_remaining hs
  rw [← hblock]
  exact mem_distinct.2 (List.mem_map_of_mem ht)

/-- What remains of the statements, block by block. -/
theorem flatMap_remaining :
    (scan text).value.blocks.flatMap (fun block =>
        (remaining options unused (scan text).value.statements).value.filter fun s =>
          s.block == block) =
      (remaining options unused (scan text).value.statements).value := by
  refine flatMap_filter_eq (not_lt_self lt_irrefl) Statement.block (pairwise_blocks text) ?_
    fun s hs => mem_blocks_of_remaining options unused hs
  have hsites : ((scan text).value.statements.map Statement.site).Pairwise fun a b =>
      ¬ b.2 < a.2 := List.pairwise_map.2 (pairwise_statementsFrom 0 false _)
  exact List.pairwise_map.1 (hsites.sublist (sublist_remaining options unused _))

/-- The pieces hold what remains of the statements and what is added. -/
theorem statements_pieces_perm (added : List Statement)
    (hne : (scan text).value.statements ≠ []) :
    ((pieces (scan text).value (remaining options unused (scan text).value.statements).value
        added).flatMap Piece.statements).Perm
      ((remaining options unused (scan text).value.statements).value ++ added) := by
  rw [statements_pieces]
  refine (List.flatMap_append_perm _ _ _).symm.trans ?_
  rw [flatMap_remaining]
  refine List.Perm.append_left _ (List.Perm.of_eq ?_)
  have hnodup : (scan text).value.blocks.Nodup := nodup_distinct _
  obtain ⟨s, hs⟩ := List.exists_mem_of_ne_nil _ hne
  have hmem : s.block ∈ (scan text).value.blocks := mem_distinct.2 (List.mem_map_of_mem hs)
  obtain ⟨first, others, hblocks⟩ := List.exists_cons_of_ne_nil (List.ne_nil_of_mem hmem)
  rw [hblocks] at hnodup ⊢
  rw [List.flatMap_cons, List.head?_cons, if_pos (by simp),
    List.flatMap_eq_nil_iff.2, List.append_nil]
  intro block hblock
  rw [if_neg]
  rw [beq_iff_eq, Option.some.injEq]
  rintro rfl
  exact (List.nodup_cons.1 hnodup).1 hblock

end Remaining

/-- Kept text stands between the pieces of the blocks before the next one and the others. -/
theorem exists_split_pieces {text : List Char} {b : Option Int}
    (hb : b ∈ (scan text).value.blocks) {c : Span}
    (hc : c ∈ headerSpans (scan text).value b) (statements added : List Statement)
    (hmem : ∀ s ∈ statements, s.block ∈ (scan text).value.blocks) :
    ∃ before after, pieces (scan text).value statements added = before ++ .kept c :: after ∧
      ∀ s ∈ statements, (s.block < b → s ∈ before.flatMap Piece.statements) ∧
        (¬ s.block < b → s ∈ after.flatMap Piece.statements) := by
  have hpair := pairwise_blocks text
  obtain ⟨above, below, hblocks⟩ := List.append_of_mem hb
  obtain ⟨ks, ls, hspans⟩ := List.append_of_mem hc
  have hfind : ∀ s ∈ statements, ∀ bs : List (Option Int), s.block ∈ bs →
      s ∈ (bs.flatMap (blockPieces (scan text).value statements added)).flatMap
        Piece.statements := by
    intro s hs bs hbs
    rw [List.flatMap_assoc]
    refine List.mem_flatMap.2 ⟨s.block, hbs, ?_⟩
    rw [statements_blockPieces]
    exact List.mem_append_left _ (List.mem_filter.2 ⟨hs, beq_iff_eq.2 rfl⟩)
  refine ⟨above.flatMap (blockPieces (scan text).value statements added) ++ ks.map .kept,
    ls.map .kept ++ (.body (blockStatements (scan text).value statements added b) ::
      below.flatMap (blockPieces (scan text).value statements added)), ?_, ?_⟩
  · rw [pieces, hblocks, List.flatMap_append, List.flatMap_cons, blockPieces, hspans]
    simp only [List.map_append, List.map_cons, List.append_assoc, List.cons_append, List.nil_append]
  · intro s hs
    have hblock := hmem s hs
    rw [hblocks] at hblock hpair
    obtain ⟨-, hbelow, habove⟩ := List.pairwise_append.1 hpair
    refine ⟨fun hlt => ?_, fun hnot => ?_⟩
    · rw [List.flatMap_append]
      refine List.mem_append_left _ (hfind s hs above ?_)
      refine (List.mem_append.1 hblock).resolve_right fun hbehind => ?_
      rcases List.mem_cons.1 hbehind with heq | hbehind
      · exact not_lt_self lt_irrefl b (heq ▸ hlt)
      · exact not_lt_of_block_lt ((List.pairwise_cons.1 hbelow).1 _ hbehind) hlt
    · rw [List.flatMap_append, statements_kept, List.nil_append, List.flatMap_cons]
      have hbehind := (List.mem_append.1 hblock).resolve_left fun hbefore =>
        hnot (habove _ hbefore b List.mem_cons_self)
      rcases List.mem_cons.1 hbehind with heq | hbehind
      · refine List.mem_append_left _ (List.mem_append_left _ ?_)
        exact List.mem_filter.2 ⟨hs, beq_iff_eq.2 heq⟩
      · exact List.mem_append_right _ (hfind s hs below hbehind)

/-- Kept text is found again in order and as it was, and each comment between what remains of the
statements before it and what remains of those behind it. -/
theorem organize_keeps_in_place (formatter : Formatter) {setting : Setting}
    (hoff : setting.options.useFormatter = false) (unused : Option (List Span))
    (suggestions : Option (List Suggestion)) {text : List Char} {r : Span}
    (hr : (scan text).value.region = some r) :
    ∃ (out : List Char) (ps : List Piece),
      (organize formatter setting unused suggestions text).run.value = .ok out ∧
        Strung (ps.map (Piece.text setting text)) out ∧
        ps.filterMap Piece.kept? =
          ((scan text).value.preserved.filter fun k => r.contains k) ∧
        ((scan text).value.preserved.Pairwise fun k l => k.start < l.start) ∧
        (ps.flatMap Piece.statements).Perm
          ((remaining setting.options unused (scan text).value.statements).value ++
            (additions setting.options suggestions).value) ∧
        ∀ c ∈ (scan text).value.preserved, r.contains c = true →
          c ∈ (survey (lines text)).comments →
            ∃ before after, ps = before ++ .kept c :: after ∧
              ∀ s ∈ (remaining setting.options unused (scan text).value.statements).value,
                ∃ t ∈ (scan text).value.statements, ∃ span,
                  t.span = some span ∧ s.span = some span ∧
                    (span.stop ≤ c.start ∧ s ∈ before.flatMap Piece.statements ∨
                      c.stop ≤ span.start ∧ s ∈ after.flatMap Piece.statements) := by
  obtain ⟨ss, h⟩ := exists_layout (lines text)
  have hne : (scan text).value.statements ≠ [] := by
    intro hnil
    rw [(scan_faithful text).region_none.2 hnil] at hr
    cases hr
  obtain ⟨out, hout, hstrung⟩ := strung_organize formatter hoff unused suggestions hr (by
    intro block k hk
    obtain ⟨hk, -⟩ := List.mem_filter.1 hk
    obtain ⟨hk, hin⟩ := List.mem_filter.1 hk
    rw [hr] at hin
    exact h.filled_preserved hr hk hin)
  refine ⟨out, _, hout, hstrung, ?_, h.pairwise_preserved,
    statements_pieces_perm setting.options unused _ hne, ?_⟩
  · rw [kept_pieces, flatMap_headerSpans hr]
  · intro c hc hin hcomment
    obtain ⟨b, hb, hnext⟩ := h.exists_block_below hr hc hin
    have hheader : c ∈ headerSpans (scan text).value b := by
      rw [headerSpans, hr]
      exact List.mem_filter.2 ⟨List.mem_filter.2 ⟨hc, hin⟩, beq_iff_eq.2 hnext⟩
    obtain ⟨before, after, hsplit, hsides⟩ := exists_split_pieces hb hheader
      (remaining setting.options unused (scan text).value.statements).value
      (additions setting.options suggestions).value
      fun s hs => mem_blocks_of_remaining setting.options unused hs
    refine ⟨before, after, hsplit, fun s hs => ?_⟩
    obtain ⟨t, ht, hspan, hblock⟩ := exists_of_mem_remaining hs
    obtain ⟨span, hts, hside⟩ := h.comment_divides hcomment hnext ht
    refine ⟨t, ht, span, hts, hspan.symm.trans hts, ?_⟩
    rw [hblock] at hside
    obtain ⟨hbefore, hafter⟩ := hsides s hs
    exact hside.imp (fun hlt => ⟨hlt.2, hbefore hlt.1⟩) fun hnot => ⟨hnot.2, hafter hnot.1⟩

/-- A comment whose block is not used, and a declaration that is kept. -/
def sampleDivided : List Char := "use b;\n// c\nuse a;\nuse d /* e */;\n\nuse f;".toList

theorem organize_keeps_sampleDivided :
    (scan sampleDivided).value.region = some ⟨⟨0, 0⟩, ⟨5, 6⟩⟩ ∧
      ∃ (out : List Char) (ps before after : List Piece),
        (organize .absent {} (some [⟨⟨2, 4⟩, ⟨2, 5⟩⟩]) none sampleDivided).run.value = .ok out ∧
          Strung (ps.map (Piece.text {} sampleDivided)) out ∧
          ps.filterMap Piece.kept? = [⟨⟨1, 0⟩, ⟨1, 4⟩⟩, ⟨⟨3, 0⟩, ⟨3, 14⟩⟩] ∧
          ps = before ++ .kept ⟨⟨1, 0⟩, ⟨1, 4⟩⟩ :: after := by
  have hregion : (scan sampleDivided).value.region = some ⟨⟨0, 0⟩, ⟨5, 6⟩⟩ := by decide +kernel
  have hpreserved : (scan sampleDivided).value.preserved =
      [⟨⟨1, 0⟩, ⟨1, 4⟩⟩, ⟨⟨3, 0⟩, ⟨3, 14⟩⟩] := by decide +kernel
  have hcomment : (⟨⟨1, 0⟩, ⟨1, 4⟩⟩ : Span) ∈ (survey (lines sampleDivided)).comments := by
    decide +kernel
  obtain ⟨out, ps, hout, hstrung, hkept, -, -, hsides⟩ := organize_keeps_in_place .absent
    (show ({} : Setting).options.useFormatter = false from rfl) (some [⟨⟨2, 4⟩, ⟨2, 5⟩⟩]) none hregion
  rw [hpreserved] at hkept hsides
  obtain ⟨before, after, hsplit, -⟩ := hsides _ List.mem_cons_self (by decide) hcomment
  exact ⟨hregion, out, ps, before, after, hout, hstrung, hkept, hsplit⟩

end Document

end TidyUse
