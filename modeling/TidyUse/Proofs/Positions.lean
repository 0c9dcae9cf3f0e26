import TidyUse.Document.Splice
import TidyUse.Proofs.Lines
import TidyUse.Proofs.Walk

/-!
# Positions in a text

A position is given by the lines above it and the two parts of its line: `lines text =
above.reverse ++ (x ++ y) :: below`, and the position is `⟨above.length, x.length⟩`.

* `take_charsBefore`, `drop_charsBefore` : the text before and behind a position;
* `lineAt_eq` : its line;
* `excerpt_placed` : the text of some lines.
-/

namespace TidyUse

namespace Text

theorem unlines_split (ls : List Line) (x y : Line) (below : List Line) :
    unlines (ls ++ (x ++ y) :: below) = unlines (ls ++ [x]) ++ unlines (y :: below) := by
  have hrest : unlines ((x ++ y) :: below) = x ++ unlines (y :: below) := by
    cases below with
    | nil => simp [unlines]
    | cons l below => simp [unlines_cons]
  cases ls with
  | nil =>
    rw [List.nil_append, List.nil_append, hrest]
    simp [unlines]
  | cons l ls =>
    rw [unlines_append (List.cons_ne_nil _ _) (List.cons_ne_nil _ _), hrest,
      unlines_append (List.cons_ne_nil _ _) (List.cons_ne_nil _ _)]
    simp [unlines]

end Text

namespace Document

open Text

theorem length_unlines_append (ls : List Line) (x : Line) :
    (unlines (ls ++ [x])).length = size ls + x.length := by
  induction ls with
  | nil => simp [unlines, size]
  | cons l ls ih =>
    rw [List.cons_append, unlines_cons (by simp), List.length_append, List.length_cons, ih,
      size_cons]
    omega

section At

variable {text : List Char} {above : List Line} {x y : Line} {below : List Line}

theorem eq_of_lines (h : lines text = above.reverse ++ (x ++ y) :: below) :
    text = unlines (above.reverse ++ [x]) ++ unlines (y :: below) := by
  rw [← unlines_split, ← h, unlines_lines]

theorem charsBefore_eq (h : lines text = above.reverse ++ (x ++ y) :: below) :
    charsBefore text ⟨above.length, x.length⟩ = (unlines (above.reverse ++ [x])).length := by
  have htake : (lines text).take above.length = above.reverse := by
    rw [h]
    exact List.take_left' List.length_reverse
  rw [charsBefore, offset]
  simp only [clip_natCast, htake]
  rw [← Int.natCast_add, clip_natCast, length_unlines_append]

theorem take_charsBefore (h : lines text = above.reverse ++ (x ++ y) :: below) :
    text.take (charsBefore text ⟨above.length, x.length⟩) = unlines (above.reverse ++ [x]) := by
  rw [charsBefore_eq h, eq_of_lines h]
  exact List.take_left

theorem drop_charsBefore (h : lines text = above.reverse ++ (x ++ y) :: below) :
    text.drop (charsBefore text ⟨above.length, x.length⟩) = unlines (y :: below) := by
  rw [charsBefore_eq h, eq_of_lines h]
  exact List.drop_left

theorem lineAt_eq (h : lines text = above.reverse ++ (x ++ y) :: below) :
    lineAt text ⟨above.length, x.length⟩ = (x, y) := by
  have hline : (lines text).getD above.length [] = x ++ y := by
    rw [h, List.getD_eq_getElem?_getD, List.getElem?_append_right (by simp)]
    simp
  rw [lineAt]
  simp only [clip_natCast, hline]
  rw [List.splitAt_eq, List.take_left, List.drop_left]

end At

/-- The text of some lines of a document. -/
theorem excerpt_placed {text : List Char} {above : List Line} {before : List Char}
    {ls : List Line} {after : List Char} {below : List Line} (hne : ls ≠ [])
    (h : lines text = above.reverse ++ (fringe before ls after ++ below)) :
    excerpt text (placed above before ls) = unlines ls := by
  obtain ⟨first, more, rfl⟩ := List.exists_cons_of_ne_nil hne
  obtain ⟨y, below', hstart⟩ : ∃ y below', fringe before (first :: more) after ++ below =
      (before ++ y) :: below' := by
    cases more with
    | nil => exact ⟨first ++ after, below, by simp [fringe_cons, rows_nil]⟩
    | cons next more => exact ⟨first, _, by rw [fringe_cons, rows_cons]; rfl⟩
  have hstop : lines text = ((leadRows before first more).reverse ++ above).reverse ++
      (lastRow before first more ++ after) :: below := by
    rw [h, fringe_cons, rows]
    simp
  have hlen : ((leadRows before first more).reverse ++ above).length = above.length + more.length := by
    simp [Nat.add_comm]
  have htake := take_charsBefore hstop
  have hcut : unlines (((leadRows before first more).reverse ++ above).reverse ++
      [lastRow before first more]) = unlines (above.reverse ++ [before]) ++ unlines (first :: more) := by
    have hrows := rows_open before first more
    rw [rows, List.append_nil] at hrows
    rw [List.reverse_append, List.reverse_reverse, List.append_assoc, hrows, unlines_split]
  rw [hlen, hcut] at htake
  rw [hstart] at h
  rw [excerpt, placed]
  simp only [htake, charsBefore_eq h]
  exact List.drop_left

end Document

end TidyUse
