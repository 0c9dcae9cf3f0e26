import TidyUse.Proofs.LineKinds
import TidyUse.Proofs.Positions

/-!
# The lines of a document with new imports

* `headOf`, `tailOf` : what stands above and below the imports;
* `lines_replaceRegion` : the document with its imports replaced, line by line.
-/

namespace TidyUse

namespace Document

open Text

/-- The text on some lines, behind some lines and before others. -/
theorem unlines_fringe (ls : List Line) (ws : Line) {block : List Line} (hne : block ≠ [])
    (after : Line) (ms : List Line) :
    unlines (ls ++ (fringe ws block after ++ ms)) =
      unlines (ls ++ [ws]) ++ unlines block ++ unlines (after :: ms) := by
  obtain ⟨first, more, rfl⟩ := List.exists_cons_of_ne_nil hne
  have hlead : leadRows ws first more ++ [lastRow ws first more] = (ws ++ first) :: more := by
    have hrows := rows_open ws first more
    rwa [rows, List.append_nil] at hrows
  have hsplit : ls ++ (fringe ws (first :: more) after ++ ms) =
      (ls ++ leadRows ws first more) ++ (lastRow ws first more ++ after) :: ms := by
    simp [fringe_cons, rows]
  rw [hsplit, unlines_split, List.append_assoc ls, hlead, unlines_split]

theorem fringe_ne_nil {ws after : Line} {block : List Line} (hne : block ≠ []) :
    fringe ws block after ≠ [] := by
  obtain ⟨first, more, rfl⟩ := List.exists_cons_of_ne_nil hne
  rw [fringe_cons, rows]
  simp

theorem newline_not_mem_fringe {ws after : Line} {block : List Line} (hws : '\n' ∉ ws)
    (hblock : ∀ l ∈ block, '\n' ∉ l) (hafter : '\n' ∉ after) {l : Line}
    (hl : l ∈ fringe ws block after) : '\n' ∉ l := by
  cases block with
  | nil => exact absurd hl List.not_mem_nil
  | cons first more =>
    rw [fringe_cons] at hl
    induction more generalizing ws first with
    | nil =>
      rw [rows_nil, List.mem_singleton] at hl
      rw [hl, List.mem_append, List.mem_append]
      have hfirst := hblock first List.mem_cons_self
      tauto
    | cons next more ih =>
      rw [rows_cons, List.mem_cons] at hl
      rcases hl with rfl | hl
      · rw [List.mem_append]
        have hfirst := hblock first List.mem_cons_self
        tauto
      · exact ih (by simp) next (fun m hm => hblock m (List.mem_cons_of_mem _ hm)) hl

/-- What stands above imports that start behind `x`: some lines, and the part of a line. Code before
the imports gets a line of its own, and an empty line below it. -/
def headOf (above : List Line) (x : Line) : List Line × Line :=
  if isBlank x then (above.reverse, x) else (above.reverse ++ [dropEndWhile isGap x, []], [])

/-- What stands below imports that end before `y`: the part of a line, and some lines. Code behind
the imports gets a line of its own, and an empty line above it. -/
def tailOf (trailingBlank : Bool) (y : Line) (below : List Line) : Line × List Line :=
  if isBlank y then if trailingBlank then (y, below) else ([], y :: below)
  else ([], [] :: y.dropWhile isGap :: below)

theorem isSpace_of_isGap {c : Char} (h : isGap c = true) : isSpace c = true := by
  rw [isGap, Bool.or_eq_true, beq_iff_eq, beq_iff_eq] at h
  rcases h with rfl | rfl <;> decide

theorem not_all_isGap {x : Line} (h : isBlank x = false) : x.all isGap = false := by
  rw [Bool.eq_false_iff]
  intro hgap
  rw [isBlank, List.all_eq_true.2 fun c hc => isSpace_of_isGap (List.all_eq_true.1 hgap c hc)] at h
  cases h

theorem unlines_headOf (above : List Line) (x : Line) :
    unlines ((headOf above x).1 ++ [(headOf above x).2]) =
      if isBlank x then unlines (above.reverse ++ [x])
      else dropEndWhile isGap (unlines (above.reverse ++ [x])) ++ ['\n', '\n'] := by
  rw [headOf]
  split
  · rfl
  · rename_i hx
    have hne : dropEndWhile isGap x ≠ [] := by
      rw [Ne, dropEndWhile_eq_nil, not_all_isGap (Bool.eq_false_iff.2 hx)]
      exact Bool.false_ne_true
    have hsplit := unlines_split above.reverse [] x []
    have hsplit' := unlines_split above.reverse [] (dropEndWhile isGap x) [[], []]
    rw [List.nil_append] at hsplit hsplit'
    rw [List.append_assoc]
    show unlines (above.reverse ++ [dropEndWhile isGap x, [], []]) = _
    rw [hsplit, hsplit']
    have hx' : unlines [x] = x := by simp [unlines]
    rw [hx', dropEndWhile_append_of_ne hne, List.append_assoc]
    simp [unlines]

theorem unlines_tailOf (trailingBlank : Bool) (y : Line) (below : List Line) :
    unlines ((tailOf trailingBlank y below).1 :: (tailOf trailingBlank y below).2) =
      if isBlank y then
        if trailingBlank then unlines (y :: below) else '\n' :: unlines (y :: below)
      else '\n' :: '\n' :: (unlines (y :: below)).dropWhile isGap := by
  rw [tailOf]
  split
  · split
    · rfl
    · rw [unlines_cons (List.cons_ne_nil _ _)]
      rfl
  · rename_i hy
    have hne : y.dropWhile isGap ≠ [] := by
      rw [Ne, dropWhile_eq_nil, not_all_isGap (Bool.eq_false_iff.2 hy)]
      exact Bool.false_ne_true
    have hdrop : (unlines (y :: below)).dropWhile isGap = unlines (y.dropWhile isGap :: below) := by
      cases below with
      | nil => simp [unlines]
      | cons l below =>
        rw [unlines_cons (List.cons_ne_nil _ _), unlines_cons (List.cons_ne_nil _ _),
          dropWhile_append_of_ne hne]
    rw [hdrop, unlines_cons (List.cons_ne_nil _ _), unlines_cons (List.cons_ne_nil _ _)]
    rfl

section Replace

variable {text : List Char} {above above' : List Line} {x y x' y' : Line} {below below' : List Line}

theorem newline_not_mem_parts (h : lines text = above.reverse ++ (x ++ y) :: below) :
    '\n' ∉ x ∧ '\n' ∉ y := by
  have hmem : x ++ y ∈ lines text := h ▸ List.mem_append_right _ List.mem_cons_self
  have hline := newline_not_mem hmem
  rwa [List.mem_append, not_or] at hline

theorem newline_not_mem_headOf (h : lines text = above.reverse ++ (x ++ y) :: below) {l : Line}
    (hl : l ∈ (headOf above x).1 ++ [(headOf above x).2]) : '\n' ∉ l := by
  have hx := (newline_not_mem_parts h).1
  have habove : ∀ m ∈ above.reverse, '\n' ∉ m := fun m hm =>
    newline_not_mem (h ▸ List.mem_append_left _ hm)
  obtain ⟨ws, -, hws⟩ := dropEndWhile_append isGap x
  rw [headOf] at hl
  split at hl
  · rcases List.mem_append.1 hl with hl | hl
    · exact habove l hl
    · exact List.mem_singleton.1 hl ▸ hx
  · simp only [List.append_assoc, List.mem_append, List.mem_cons, List.not_mem_nil, or_false] at hl
    rcases hl with hl | (rfl | rfl) | rfl
    · exact habove l hl
    · exact fun hn => hx (hws ▸ List.mem_append_left _ hn)
    · exact List.not_mem_nil
    · exact List.not_mem_nil

theorem newline_not_mem_tailOf {trailingBlank : Bool}
    (h : lines text = above.reverse ++ (x ++ y) :: below) {l : Line}
    (hl : l ∈ (tailOf trailingBlank y below).1 :: (tailOf trailingBlank y below).2) : '\n' ∉ l := by
  have hy := (newline_not_mem_parts h).2
  have hbelow : ∀ m ∈ below, '\n' ∉ m := fun m hm =>
    newline_not_mem (h ▸ List.mem_append_right _ (List.mem_cons_of_mem _ hm))
  rw [tailOf] at hl
  split at hl
  · split at hl
    · rcases List.mem_cons.1 hl with rfl | hl
      · exact hy
      · exact hbelow l hl
    · simp only [List.mem_cons] at hl
      rcases hl with rfl | rfl | hl
      · exact List.not_mem_nil
      · exact hy
      · exact hbelow l hl
  · simp only [List.mem_cons] at hl
    rcases hl with rfl | rfl | rfl | hl
    · exact List.not_mem_nil
    · exact List.not_mem_nil
    · exact fun hn => hy ((List.dropWhile_sublist _).subset hn)
    · exact hbelow l hl

/-- The document with its imports replaced, line by line. -/
theorem lines_replaceRegion (hstart : lines text = above.reverse ++ (x ++ y) :: below)
    (hstop : lines text = above'.reverse ++ (x' ++ y') :: below') {block : List Line}
    (hblock : ∀ l ∈ block, '\n' ∉ l) {body : List Char} {c : Char} (hends : unlines block = body ++ [c])
    (hc : c ≠ '\n') (trailingBlank : Bool) :
    lines (replaceRegion text ⟨⟨above.length, x.length⟩, ⟨above'.length, x'.length⟩⟩ (unlines block)
      trailingBlank) =
      (headOf above x).1 ++ (fringe (headOf above x).2 block (tailOf trailingBlank y' below').1 ++
        (tailOf trailingBlank y' below').2) := by
  have hne : block ≠ [] := by
    rintro rfl
    exact absurd hends.symm (by simp [unlines])
  have hdrop : dropLineEnds (unlines block) = unlines block := by
    rw [dropLineEnds, hends, dropEndWhile_concat (by simpa using hc)]
  have hfilled : (unlines block).isEmpty = false := by
    rw [hends]
    simp
  have htext : replaceRegion text ⟨⟨above.length, x.length⟩, ⟨above'.length, x'.length⟩⟩
      (unlines block) trailingBlank =
      unlines ((headOf above x).1 ++ [(headOf above x).2]) ++ unlines block ++
        unlines ((tailOf trailingBlank y' below').1 :: (tailOf trailingBlank y' below').2) := by
    rw [unlines_headOf, unlines_tailOf, replaceRegion]
    simp only [hdrop, hfilled, lineAt_eq hstart, lineAt_eq hstop, take_charsBefore hstart,
      drop_charsBefore hstop]
    cases isBlank x <;> cases isBlank y' <;> cases trailingBlank <;> rfl
  have hhead : ∀ l ∈ (headOf above x).1 ++ [(headOf above x).2], '\n' ∉ l := fun l hl =>
    newline_not_mem_headOf hstart hl
  have htail : ∀ l ∈ (tailOf trailingBlank y' below').1 :: (tailOf trailingBlank y' below').2,
      '\n' ∉ l := fun l hl => newline_not_mem_tailOf hstop hl
  rw [htext, ← unlines_fringe _ _ hne]
  refine lines_unlines ?_ (by simp [fringe_ne_nil hne])
  intro l hl
  simp only [List.mem_append] at hl
  rcases hl with hl | hl | hl
  · exact hhead l (List.mem_append_left _ hl)
  · exact newline_not_mem_fringe (hhead _ (by simp)) hblock (htail _ List.mem_cons_self) hl
  · exact htail l (List.mem_cons_of_mem _ hl)

end Replace

end Document

end TidyUse
