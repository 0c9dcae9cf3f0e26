import Mathlib.Data.List.Basic
import Mathlib.Data.String.Basic
import TidyUse.Text.Lines

/-!
# Texts and their lines

* `Text.intercalate_append` : joining goes piece by piece;
* `Text.unlines_append`, `Text.lines_append` : the same for lines;
* `Text.newline_not_mem` : a line holds no line end;
* `Text.paragraphs` : lines in parts, with an empty line between them; `Text.unlines_paragraphs`.
-/

namespace TidyUse.Text

-- a statement about the members of a list is decided along the list, not over all characters
theorem forall_mem_of_all {α : Type} {p : α → Prop} [DecidablePred p] {xs : List α}
    (h : xs.all (fun x => decide (p x)) = true) : ∀ x ∈ xs, p x := fun x hx =>
  of_decide_eq_true (List.all_eq_true.1 h x hx)

theorem intercalate_append {α : Type} (sep : List α) {xs ys : List (List α)} (hx : xs ≠ [])
    (hy : ys ≠ []) :
    sep.intercalate (xs ++ ys) = sep.intercalate xs ++ sep ++ sep.intercalate ys := by
  induction xs with
  | nil => exact absurd rfl hx
  | cons x xs ih =>
    obtain ⟨y, ys, rfl⟩ := List.exists_cons_of_ne_nil hy
    cases xs with
    | nil => simp [List.intercalate_cons_cons]
    | cons x' xs =>
      rw [List.cons_append, List.cons_append, List.intercalate_cons_cons, ← List.cons_append,
        ih (by simp), List.intercalate_cons_cons]
      simp

theorem unlines_append {xs ys : List Line} (hx : xs ≠ []) (hy : ys ≠ []) :
    unlines (xs ++ ys) = unlines xs ++ '\n' :: unlines ys := by
  rw [unlines, intercalate_append _ hx hy]
  simp [unlines]

theorem unlines_cons {l : Line} {ls : List Line} (h : ls ≠ []) :
    unlines (l :: ls) = l ++ '\n' :: unlines ls := by
  obtain ⟨m, ms, rfl⟩ := List.exists_cons_of_ne_nil h
  rw [unlines, List.intercalate_cons_cons, List.append_assoc]
  rfl

theorem lines_append (xs ys : List Char) : lines (xs ++ '\n' :: ys) = lines xs ++ lines ys := by
  simp only [lines, List.splitOn_eq_splitOnP]
  exact List.splitOnP_append_cons _ _ (by decide)

theorem lines_of_not_mem {text : List Char} (h : '\n' ∉ text) : lines text = [text] := by
  rw [lines, List.splitOn_eq_splitOnP]
  refine List.splitOnP_eq_singleton fun c hc => ?_
  rw [beq_eq_false_iff_ne]
  rintro rfl
  exact h hc

theorem newline_not_mem {text : List Char} {l : Line} (h : l ∈ lines text) : '\n' ∉ l := by
  by_cases hmem : '\n' ∈ text
  · obtain ⟨xs, ys, htext⟩ := List.append_of_mem hmem
    have hlen := congrArg List.length htext
    rw [List.length_append, List.length_cons] at hlen
    rw [htext, lines_append, List.mem_append] at h
    rcases h with h | h
    · exact newline_not_mem h
    · exact newline_not_mem h
  · rw [lines_of_not_mem hmem, List.mem_singleton] at h
    exact h ▸ hmem
termination_by text.length

/-- The first line of a text, and the text below it. -/
theorem lines_eq_cons {text first : List Char} {more : List Line}
    (h : lines text = first :: more) :
    (more = [] ∧ text = first) ∨ ∃ rest, text = first ++ '\n' :: rest ∧ lines rest = more := by
  have htext : unlines (first :: more) = text := h ▸ unlines_lines text
  have hline : ∀ l ∈ first :: more, '\n' ∉ l := fun l hl => newline_not_mem (h ▸ hl)
  cases more with
  | nil =>
    rw [unlines, List.intercalate_singleton] at htext
    exact Or.inl ⟨rfl, htext.symm⟩
  | cons next more =>
    refine Or.inr ⟨unlines (next :: more), ?_, ?_⟩
    · rw [← htext, unlines_cons (List.cons_ne_nil _ _)]
    · exact lines_unlines (fun l hl => hline l (List.mem_cons_of_mem _ hl)) (List.cons_ne_nil _ _)

/-- Texts below each other are all of their lines. -/
theorem unlines_flatten {lss : List (List Line)} (h : ∀ ls ∈ lss, ls ≠ []) :
    ['\n'].intercalate (lss.map unlines) = unlines lss.flatten := by
  induction lss with
  | nil => rfl
  | cons ls lss ih =>
    have hrest : ∀ ms ∈ lss, ms ≠ [] := fun ms hms => h ms (List.mem_cons_of_mem _ hms)
    cases lss with
    | nil => simp
    | cons ms lss =>
      have hflat : (ms :: lss).flatten ≠ [] :=
        List.append_ne_nil_of_left_ne_nil (hrest ms List.mem_cons_self) _
      rw [List.map_cons, List.map_cons, List.intercalate_cons_cons, ← List.map_cons, ih hrest]
      show _ = unlines (ls ++ (ms :: lss).flatten)
      rw [unlines_append (h ls List.mem_cons_self) hflat]
      simp

/-- Lines with an empty line between each two parts. -/
def paragraphs (lss : List (List Line)) : List Line := [[]].intercalate lss

theorem paragraphs_cons_cons (ls ms : List Line) (lss : List (List Line)) :
    paragraphs (ls :: ms :: lss) = ls ++ [] :: paragraphs (ms :: lss) := by
  rw [paragraphs, List.intercalate_cons_cons, List.append_assoc]
  rfl

theorem paragraphs_singleton (ls : List Line) : paragraphs [ls] = ls :=
  List.intercalate_singleton ..

theorem paragraphs_ne_nil {ls : List Line} (h : ls ≠ []) (lss : List (List Line)) :
    paragraphs (ls :: lss) ≠ [] := by
  cases lss with
  | nil => rwa [paragraphs_singleton]
  | cons ms lss =>
    rw [paragraphs_cons_cons]
    exact List.append_ne_nil_of_left_ne_nil h _

/-- Texts with an empty line between them are the lines of all with one between them. -/
theorem unlines_paragraphs {lss : List (List Line)} (h : ∀ ls ∈ lss, ls ≠ []) :
    ['\n', '\n'].intercalate (lss.map unlines) = unlines (paragraphs lss) := by
  induction lss with
  | nil => rfl
  | cons ls lss ih =>
    have hrest : ∀ ms ∈ lss, ms ≠ [] := fun ms hms => h ms (List.mem_cons_of_mem _ hms)
    cases lss with
    | nil => simp [paragraphs]
    | cons ms lss =>
      have hne := paragraphs_ne_nil (hrest ms List.mem_cons_self) lss
      rw [List.map_cons, List.map_cons, List.intercalate_cons_cons, ← List.map_cons, ih hrest,
        paragraphs_cons_cons, unlines_append (h ls List.mem_cons_self) (List.cons_ne_nil _ _),
        unlines_cons hne]
      simp

theorem mem_paragraphs {lss : List (List Line)} {l : Line} (h : l ∈ paragraphs lss) :
    l = [] ∨ ∃ ls ∈ lss, l ∈ ls := by
  induction lss with
  | nil => exact absurd h List.not_mem_nil
  | cons ls lss ih =>
    cases lss with
    | nil =>
      rw [paragraphs_singleton] at h
      exact Or.inr ⟨ls, List.mem_cons_self, h⟩
    | cons ms lss =>
      rw [paragraphs_cons_cons, List.mem_append, List.mem_cons] at h
      rcases h with h | h | h
      · exact Or.inr ⟨ls, List.mem_cons_self, h⟩
      · exact Or.inl h
      · exact (ih h).imp id fun ⟨ks, hks, hl⟩ => ⟨ks, List.mem_cons_of_mem _ hks, hl⟩

theorem mem_paragraphs_of_mem {lss : List (List Line)} {ls : List Line} {l : Line} (hls : ls ∈ lss)
    (hl : l ∈ ls) : l ∈ paragraphs lss := by
  induction lss with
  | nil => exact absurd hls List.not_mem_nil
  | cons ks lss ih =>
    cases lss with
    | nil =>
      rw [paragraphs_singleton]
      exact List.mem_singleton.1 hls ▸ hl
    | cons ms lss =>
      rw [paragraphs_cons_cons, List.mem_append, List.mem_cons]
      rcases List.mem_cons.1 hls with rfl | hls
      · exact Or.inl hl
      · exact Or.inr (Or.inr (ih hls))

theorem isBlank_unlines (ls : List Line) : isBlank (unlines ls) = ls.all isBlank := by
  induction ls with
  | nil => rfl
  | cons l ls ih =>
    cases ls with
    | nil => simp [unlines]
    | cons m ls =>
      have hnewline : isSpace '\n' = true := by decide
      rw [unlines_cons (List.cons_ne_nil _ _), List.all_cons, ← ih, isBlank, List.all_append,
        List.all_cons, hnewline, Bool.true_and]
      rfl

/-- Joined texts end as the last of them does. -/
theorem intercalate_ends (sep : List Char) (ls : List (List Char)) (y : List Char) (c : Char) :
    ∃ z, sep.intercalate (ls ++ [y ++ [c]]) = z ++ [c] := by
  rcases eq_or_ne ls [] with rfl | hne
  · exact ⟨y, by simp⟩
  · refine ⟨sep.intercalate ls ++ sep ++ y, ?_⟩
    rw [intercalate_append sep hne (by simp)]
    simp

end TidyUse.Text
