import TidyUse.Proofs.Layout
import TidyUse.Proofs.Outcome
import TidyUse.Proofs.Splicing

/-!
# What organizing leaves alone

* `Text.visible` : the characters of a text that are not white space; `visible_replaceRegion`,
  `visible_insertBlock` : around new imports nothing but white space changes;
* `outerLines` : the lines above and below the imports; `sublist_replaceRegion`,
  `sublist_insertBlock` : those that are not blank stay, in order;
* `Rewritten` : a document with nothing but its imports rewritten; `organize_rewrites_region` :
  organizing gives no other, and breaks off only with the formatter;
* `organize_joins_sampleFormFeed` : white space before imports that are gone may stay, and the line
  below is joined to it.
-/

namespace TidyUse

namespace Text

/-! ## Visible characters -/

/-- The characters that are not white space. -/
def visible (text : List Char) : List Char := text.filter fun c => !isSpace c

theorem visible_append (x y : List Char) : visible (x ++ y) = visible x ++ visible y :=
  List.filter_append x y

theorem visible_of_isBlank {x : List Char} (h : isBlank x = true) : visible x = [] := by
  rw [visible, List.filter_eq_nil_iff]
  intro c hc
  rw [List.all_eq_true.1 h c hc]
  exact Bool.false_ne_true

theorem visible_cons_of_isSpace {c : Char} (h : isSpace c = true) (x : List Char) :
    visible (c :: x) = visible x := by
  rw [visible, List.filter_cons_of_neg (by rw [h]; exact Bool.false_ne_true), visible]

section Drop

variable {p : Char → Bool} (hp : ∀ c, p c = true → isSpace c = true)

include hp

theorem isBlank_of_all {x : List Char} (h : x.all p = true) : isBlank x = true :=
  List.all_eq_true.2 fun c hc => hp c (List.all_eq_true.1 h c hc)

theorem visible_dropWhile (x : List Char) : visible (x.dropWhile p) = visible x := by
  have hsplit := congrArg visible (List.takeWhile_append_dropWhile (p := p) (l := x))
  rwa [visible_append, visible_of_isBlank (isBlank_of_all hp List.all_takeWhile),
    List.nil_append] at hsplit

theorem visible_dropEndWhile (x : List Char) : visible (dropEndWhile p x) = visible x := by
  obtain ⟨ws, hws, hsplit⟩ := dropEndWhile_append p x
  rw [← congrArg visible hsplit, visible_append, visible_of_isBlank (isBlank_of_all hp hws),
    List.append_nil]

end Drop

theorem visible_unlines (ls : List Line) : visible (unlines ls) = ls.flatMap visible := by
  induction ls with
  | nil => rfl
  | cons l ls ih =>
    cases ls with
    | nil => simp [unlines]
    | cons m ls =>
      rw [unlines_cons (List.cons_ne_nil _ _), visible_append, visible_cons_of_isSpace (by decide),
        List.flatMap_cons, ih]

end Text

namespace Document

open Text

theorem visible_dropLineEnds (block : List Char) : visible (dropLineEnds block) = visible block := by
  refine visible_dropEndWhile (fun c hc => ?_) block
  rw [beq_iff_eq] at hc
  subst hc
  decide

theorem visible_closeGap (head tail : List Char) :
    visible (closeGap head tail) = visible head ++ visible tail := by
  have hhead : visible (dropEndWhile isGap head) = visible head :=
    visible_dropEndWhile (fun _ => isSpace_of_isGap) head
  have hnewline : ∀ x, visible ('\n' :: x) = visible x := visible_cons_of_isSpace (by decide)
  unfold closeGap
  dsimp only
  split
  · split <;> simp only [visible_append, hhead, hnewline]
  · rw [visible_append, hhead, hnewline]
  · rw [visible_append, hhead]

/-- Around new imports nothing but white space changes. -/
theorem visible_replaceRegion (text : List Char) (r : Span) (block : List Char)
    (trailingBlank : Bool) :
    visible (replaceRegion text r block trailingBlank) =
      visible (text.take (charsBefore text r.start)) ++ visible block ++
        visible (text.drop (charsBefore text r.stop)) := by
  generalize hhead : text.take (charsBefore text r.start) = head
  generalize htail : text.drop (charsBefore text r.stop) = tail
  have hnewline : ∀ x, visible ('\n' :: x) = visible x := visible_cons_of_isSpace (by decide)
  have hstart : visible (dropEndWhile isGap head) = visible head :=
    visible_dropEndWhile (fun _ => isSpace_of_isGap) head
  have hrest : visible (tail.dropWhile isGap) = visible tail :=
    visible_dropWhile (fun _ => isSpace_of_isGap) tail
  have hblock := visible_dropLineEnds block
  simp only [replaceRegion, hhead, htail]
  split
  · rename_i hempty
    rw [List.isEmpty_iff.1 hempty] at hblock
    rw [← hblock, show visible [] = [] from rfl, List.append_nil]
    split
    · exact visible_append head tail
    · exact visible_closeGap head tail
  · rw [visible_append, visible_append, hblock]
    congr 1
    · congr 1
      split
      · rw [visible_append, hstart, hnewline, hnewline]
        exact List.append_nil _
      · rfl
    · split
      · rw [hnewline, hnewline, hrest]
      · split
        · rfl
        · exact hnewline tail

/-- The line at which a block goes in. -/
def insertRow (text : List Char) : Nat := min (insertLine (lines text)) (lines text).length

theorem insertBlock_of_written {text : List Char} (h : isBlank text = false) (block : List Char) :
    (insertBlock text block).value =
      unlines ((lines text).take (insertRow text) ++
        setOff ((lines text).take (insertRow text)).getLast?
          ((lines text).drop (insertRow text)).head? (lines (dropLineEnds block)) ++
        (lines text).drop (insertRow text)) := by
  rw [insertBlock, if_neg (by rw [h]; exact Bool.false_ne_true)]
  rfl

theorem visible_setOff (before after : Option Line) (block : List Line) :
    (setOff before after block).flatMap visible = block.flatMap visible := by
  rw [setOff]
  split <;> split <;> simp [visible]

/-- A text is cut between two lines. -/
theorem exists_cut_between (text : List Char) (row : Nat) :
    ∃ head tail, text = head ++ tail ∧ (head = [] ∨ tail = [] ∨ head.getLast? = some '\n') ∧
      visible head = ((lines text).take row).flatMap visible ∧
      visible tail = ((lines text).drop row).flatMap visible := by
  rcases eq_or_ne ((lines text).take row) [] with hnil | habove
  · have hall : (lines text).drop row = lines text := by
      have hsplit := List.take_append_drop row (lines text)
      rwa [hnil, List.nil_append] at hsplit
    refine ⟨[], text, rfl, Or.inl rfl, by rw [hnil]; rfl, ?_⟩
    rw [hall, ← visible_unlines, unlines_lines]
  · rcases eq_or_ne ((lines text).drop row) [] with hnil | hbelow
    · have hall : (lines text).take row = lines text := by
        have hsplit := List.take_append_drop row (lines text)
        rwa [hnil, List.append_nil] at hsplit
      refine ⟨text, [], (List.append_nil text).symm, Or.inr (Or.inl rfl), ?_, by rw [hnil]; rfl⟩
      rw [hall, ← visible_unlines, unlines_lines]
    · refine ⟨unlines ((lines text).take row) ++ ['\n'], unlines ((lines text).drop row), ?_,
        Or.inr (Or.inr (by simp)), ?_, visible_unlines _⟩
      · have hsplit := unlines_append habove hbelow
        rw [List.take_append_drop, unlines_lines] at hsplit
        rw [List.append_assoc]
        exact hsplit
      · rw [visible_append, visible_unlines, visible_of_isBlank (by decide), List.append_nil]

/-- Around imports that are put in nothing but white space changes. -/
theorem visible_insertBlock (text block : List Char) :
    ∃ head tail, text = head ++ tail ∧ (head = [] ∨ tail = [] ∨ head.getLast? = some '\n') ∧
      visible (insertBlock text block).value = visible head ++ visible block ++ visible tail := by
  cases hblank : isBlank text with
  | true =>
    refine ⟨[], text, rfl, Or.inl rfl, ?_⟩
    have hvalue : (insertBlock text block).value = dropLineEnds block ++ ['\n'] := by
      rw [insertBlock, if_pos hblank]
      rfl
    rw [hvalue, visible_append, visible_dropLineEnds, visible_of_isBlank hblank]
    rfl
  | false =>
    obtain ⟨head, tail, htext, hcut, hhead, htail⟩ := exists_cut_between text (insertRow text)
    refine ⟨head, tail, htext, hcut, ?_⟩
    rw [insertBlock_of_written hblank, visible_unlines, List.flatMap_append, List.flatMap_append,
      visible_setOff, hhead, htail, ← visible_unlines (lines (dropLineEnds block)), unlines_lines,
      visible_dropLineEnds]

/-! ## Lines around the imports -/

/-- The lines above and below the imports, or all lines if there are none. -/
def outerLines (ls : List Line) : Option Span → List Line
  | none => ls
  | some r => ls.take r.start.line.toNat ++ ls.drop (r.stop.line.toNat + 1)

/-- The lines that are not blank. -/
def written (ls : List Line) : List Line := ls.filter fun l => !isBlank l

theorem written_append (ls ms : List Line) : written (ls ++ ms) = written ls ++ written ms :=
  List.filter_append ls ms

theorem written_sublist (ls : List Line) : (written ls).Sublist ls := List.filter_sublist

theorem written_cons_of_isBlank {l : Line} (h : isBlank l = true) (ls : List Line) :
    written (l :: ls) = written ls := by
  rw [written, List.filter_cons_of_neg (by rw [h]; exact Bool.false_ne_true), written]

section Replace

variable {text : List Char} {above above' : List Line} {x y x' y' : Line} {below below' : List Line}

theorem dropLineEnds_dropLineEnds (block : List Char) :
    dropLineEnds (dropLineEnds block) = dropLineEnds block := by
  rcases dropEndWhile_ends (· == '\n') block with hnil | ⟨cs, c, hends, hc⟩
  · rw [dropLineEnds, dropLineEnds, hnil]
    rfl
  · rw [dropLineEnds, dropLineEnds, hends]
    exact dropEndWhile_concat (p := (· == '\n')) hc cs

theorem replaceRegion_dropLineEnds (r : Span) (block : List Char) (trailingBlank : Bool) :
    replaceRegion text r (dropLineEnds block) trailingBlank =
      replaceRegion text r block trailingBlank := by
  simp only [replaceRegion, dropLineEnds_dropLineEnds]

/-- All that stands above some imports, and all that stands below, stands there around others. -/
theorem sublist_replaceRegion_of_filled
    (hstart : lines text = above.reverse ++ (x ++ y) :: below)
    (hstop : lines text = above'.reverse ++ (x' ++ y') :: below') {block : List Char}
    (hblock : dropLineEnds block ≠ []) (trailingBlank : Bool) :
    (above.reverse ++ below').Sublist (lines (replaceRegion text
      ⟨⟨above.length, x.length⟩, ⟨above'.length, x'.length⟩⟩ block trailingBlank)) := by
  obtain ⟨cs, c, hends, hc⟩ := (dropEndWhile_ends (· == '\n') block).resolve_left hblock
  have hlines := lines_replaceRegion hstart hstop (fun l hl => newline_not_mem hl)
    ((unlines_lines (dropLineEnds block)).trans hends) (by simpa using hc) trailingBlank
  rw [unlines_lines, replaceRegion_dropLineEnds] at hlines
  have hhead : above.reverse.Sublist (headOf above x).1 := by
    rw [headOf]
    split
    · exact List.Sublist.refl _
    · exact List.sublist_append_left _ _
  have htail : below'.Sublist (tailOf trailingBlank y' below').2 := by
    rw [tailOf]
    split
    · split
      · exact List.Sublist.refl _
      · exact List.sublist_cons_self _ _
    · exact (List.sublist_cons_self _ _).trans (List.sublist_cons_self _ _)
  rw [hlines]
  exact hhead.append (htail.trans (List.sublist_append_right _ _))

theorem closeGap_cases (head tail : List Char) :
    closeGap head tail = dropEndWhile isGap head ++ tail ∨
      (∃ rest, tail = '\n' :: rest ∧ closeGap head tail = dropEndWhile isGap head ++ rest) ∨
      ∃ rest, tail = '\n' :: '\n' :: rest ∧ closeGap head tail = dropEndWhile isGap head ++ rest := by
  unfold closeGap
  dsimp only
  split
  · rename_i rest
    split
    · exact Or.inr (Or.inr ⟨rest, rfl, rfl⟩)
    · exact Or.inr (Or.inl ⟨'\n' :: rest, rfl, rfl⟩)
  · rename_i rest _
    exact Or.inr (Or.inl ⟨rest, rfl, rfl⟩)
  · exact Or.inl rfl

theorem dropEndWhile_isGap_unlines (above : List Line) (x : Line) :
    dropEndWhile isGap (unlines (above.reverse ++ [x])) =
      unlines (above.reverse ++ [dropEndWhile isGap x]) := by
  have hline : ∀ z : Line, unlines (above.reverse ++ [z]) = unlines (above.reverse ++ [[]]) ++ z := by
    intro z
    have hsplit := unlines_split above.reverse [] z []
    rwa [List.nil_append, show unlines [z] = z by simp [unlines]] at hsplit
  rw [hline x, hline (dropEndWhile isGap x)]
  rcases eq_or_ne (dropEndWhile isGap x) [] with hnil | hne
  · rw [dropEndWhile_append_of_nil hnil, hnil, List.append_nil]
    rcases eq_or_ne above.reverse [] with habove | habove
    · rw [habove]
      rfl
    · have hends : unlines (above.reverse ++ [[]]) = unlines above.reverse ++ ['\n'] := by
        rw [unlines_append habove (List.cons_ne_nil _ _)]
        rfl
      rw [hends, dropEndWhile_concat (by decide)]
  · exact dropEndWhile_append_of_ne hne _

/-- Text that follows some lines and the part of a line. -/
theorem lines_unlines_append (habove : ∀ l ∈ above.reverse, '\n' ∉ l) (hx : '\n' ∉ x)
    (rest : List Char) :
    lines (unlines (above.reverse ++ [x]) ++ rest) =
      above.reverse ++ (lines rest).modifyHead (x ++ ·) := by
  obtain ⟨l, ls, hrest⟩ := List.exists_cons_of_ne_nil (lines_ne_nil rest)
  have hmem : ∀ m ∈ l :: ls, '\n' ∉ m := fun m hm => newline_not_mem (hrest ▸ hm)
  rw [hrest, List.modifyHead_cons, ← unlines_lines rest, hrest, ← unlines_split]
  refine lines_unlines (fun m hm => ?_) (by simp)
  rcases List.mem_append.1 hm with hm | hm
  · exact habove m hm
  · rcases List.mem_cons.1 hm with rfl | hm
    · rw [List.mem_append, not_or]
      exact ⟨hx, hmem l List.mem_cons_self⟩
    · exact hmem m (List.mem_cons_of_mem _ hm)

/-- A gap that is closed takes blank lines with it at most. What is left of the line on which it
opens is put before another line, and `g` does not see it there. -/
theorem sublist_closeGap {g : Line → Line} (habove : ∀ l ∈ above.reverse, '\n' ∉ l)
    (hx : '\n' ∉ x) (hg : ∀ l, g (dropEndWhile isGap x ++ l) = g l) (tail : List Char) :
    ((written (above.reverse ++ (lines tail).tail)).map g).Sublist
      ((lines (closeGap (unlines (above.reverse ++ [x])) tail)).map g) := by
  have hx' : '\n' ∉ dropEndWhile isGap x := by
    obtain ⟨ws, -, hsplit⟩ := dropEndWhile_append isGap x
    exact fun hmem => hx (hsplit ▸ List.mem_append_left _ hmem)
  have hlines : ∀ rest, (lines (dropEndWhile isGap (unlines (above.reverse ++ [x])) ++ rest)).map g =
      (above.reverse ++ lines rest).map g := by
    intro rest
    rw [dropEndWhile_isGap_unlines, lines_unlines_append habove hx']
    cases lines rest with
    | nil => rfl
    | cons l ls =>
      rw [List.modifyHead_cons, List.map_append, List.map_append, List.map_cons, List.map_cons, hg]
  have hnewline : ∀ rest, lines ('\n' :: rest) = [] :: lines rest := lines_append []
  rw [written_append]
  rcases closeGap_cases (unlines (above.reverse ++ [x])) tail with
    hclose | ⟨rest, rfl, hclose⟩ | ⟨rest, rfl, hclose⟩
  · rw [hclose, hlines]
    exact ((written_sublist _).append ((written_sublist _).trans (List.tail_sublist _))).map g
  · rw [hclose, hlines, hnewline, List.tail_cons]
    exact ((written_sublist _).append (written_sublist _)).map g
  · rw [hclose, hlines, hnewline, hnewline, List.tail_cons, written_cons_of_isBlank rfl]
    exact ((written_sublist _).append (written_sublist _)).map g

/-- The lines around imports that are gone stay, up to what stood before these. -/
theorem sublist_replaceRegion_of_empty {g : Line → Line}
    (hstart : lines text = above.reverse ++ (x ++ y) :: below)
    (hstop : lines text = above'.reverse ++ (x' ++ y') :: below') {block : List Char}
    (hblock : dropLineEnds block = [])
    (hg : isBlank x = true → ∀ l, g (dropEndWhile isGap x ++ l) = g l) (trailingBlank : Bool) :
    ((written (above.reverse ++ below')).map g).Sublist ((lines (replaceRegion text
      ⟨⟨above.length, x.length⟩, ⟨above'.length, x'.length⟩⟩ block trailingBlank)).map g) := by
  have habove : ∀ l ∈ above.reverse, '\n' ∉ l := fun l hl =>
    newline_not_mem (hstart ▸ List.mem_append_left _ hl)
  have hbelow : ∀ l ∈ below', '\n' ∉ l := fun l hl =>
    newline_not_mem (hstop ▸ List.mem_append_right _ (List.mem_cons_of_mem _ hl))
  have hx := (newline_not_mem_parts hstart).1
  have hy := (newline_not_mem_parts hstop).2
  have htail : lines (unlines (y' :: below')) = y' :: below' :=
    lines_unlines (List.forall_mem_cons.2 ⟨hy, hbelow⟩) (List.cons_ne_nil _ _)
  simp only [replaceRegion, hblock, lineAt_eq hstart, lineAt_eq hstop, take_charsBefore hstart,
    drop_charsBefore hstop]
  rw [if_pos List.isEmpty_nil]
  split
  · rw [lines_unlines_append habove hx, htail, List.modifyHead_cons, written_append]
    exact ((written_sublist _).append
      ((written_sublist _).trans (List.sublist_cons_self _ _))).map g
  · rename_i hcode
    have hblank : isBlank x = true := by
      rw [Bool.or_eq_true, not_or] at hcode
      simpa using hcode.1
    have hsub := sublist_closeGap habove hx (hg hblank) (unlines (y' :: below'))
    rwa [htail] at hsub

end Replace

/-- The lines of a document to which imports are added stay. -/
theorem sublist_insertBlock (text block : List Char) :
    (written (lines text)).Sublist (lines (insertBlock text block).value) := by
  cases hblank : isBlank text with
  | true =>
    have hall : (lines text).all isBlank = true := by
      rw [← isBlank_unlines, unlines_lines, hblank]
    have hnil : written (lines text) = [] := by
      rw [written, List.filter_eq_nil_iff]
      intro l hl
      rw [List.all_eq_true.1 hall l hl]
      exact Bool.false_ne_true
    rw [hnil]
    exact List.nil_sublist _
  | false =>
    rw [insertBlock_of_written hblank, lines_unlines]
    · have hsplit := List.take_append_drop (insertRow text) (lines text)
      nth_rewrite 1 [← hsplit]
      rw [List.append_assoc]
      exact (written_sublist _).trans
        ((List.Sublist.refl _).append (List.sublist_append_right _ _))
    · intro l hl
      simp only [List.mem_append, setOff] at hl
      rcases hl with (hl | (hl | hl) | hl) | hl
      · exact newline_not_mem (List.mem_of_mem_take hl)
      · split at hl
        · rw [List.mem_singleton.1 hl]
          exact List.not_mem_nil
        · cases hl
      · exact newline_not_mem hl
      · split at hl
        · rw [List.mem_singleton.1 hl]
          exact List.not_mem_nil
        · cases hl
      · exact newline_not_mem (List.mem_of_mem_drop hl)
    · simp [setOff, lines_ne_nil]

/-! ## Organizing -/

/-- A text in three parts, with the imports in the middle. Without imports nothing is there, and
the other two meet between two lines or at an end of the text. -/
def Parted (text : List Char) (region : Option Span) (head middle tail : List Char) : Prop :=
  text = head ++ middle ++ tail ∧
    match region with
    | some r => head.length = charsBefore text r.start ∧ middle = excerpt text r
    | none => middle = [] ∧ (head = [] ∨ tail = [] ∨ head.getLast? = some '\n')

/-- White space before a position, if nothing else stands there on its line, is made of spaces and
tabs. -/
def Indented (text : List Char) (p : Position) : Prop :=
  isBlank (lineAt text p).1 = true → (lineAt text p).1.all isGap = true

instance (text : List Char) (p : Position) : Decidable (Indented text p) :=
  inferInstanceAs (Decidable (_ → _))

theorem parted_region {text : List Char} {r : Span} (hr : (survey (lines text)).region = some r) :
    Parted text (some r) (text.take (charsBefore text r.start)) (excerpt text r)
      (text.drop (charsBefore text r.stop)) := by
  obtain ⟨ss, h⟩ := exists_layout (lines text)
  obtain ⟨hle, ⟨_, _, _, _, hstart⟩, ⟨_, _, _, _, hstop⟩⟩ := h.cut_region hr
  have htake : text.take (charsBefore text r.start) =
      (text.take (charsBefore text r.stop)).take (charsBefore text r.start) := by
    rw [List.take_take, Nat.min_eq_left (hstart.charsBefore_mono hstop hle)]
  refine ⟨?_, ?_, rfl⟩
  · rw [excerpt, htake, List.take_append_drop, List.take_append_drop]
  · rw [List.length_take, Nat.min_eq_left hstart.charsBefore_le]

/-- The lines above and below the imports that are not blank stay around new ones, as far as `g`
tells. If none are put in the place of the imports, `g` must not see what is left of their line. -/
theorem sublist_replaceRegion {text : List Char} {r : Span} {g : Line → Line}
    (hr : (survey (lines text)).region = some r) (block : List Char)
    (hg : dropLineEnds block = [] → isBlank (lineAt text r.start).1 = true →
      ∀ l, g (dropEndWhile isGap (lineAt text r.start).1 ++ l) = g l) (trailingBlank : Bool) :
    ((written (outerLines (lines text) (some r))).map g).Sublist
      ((lines (replaceRegion text r block trailingBlank)).map g) := by
  obtain ⟨ss, h⟩ := exists_layout (lines text)
  obtain ⟨-, ⟨above, x, y, below, hstart, hp⟩, above', x', y', below', hstop, hq⟩ :=
    h.cut_region hr
  obtain ⟨p, q⟩ := r
  simp only at hp hq
  subst hp hq
  have houter : outerLines (lines text) (some ⟨⟨above.length, x.length⟩, ⟨above'.length, x'.length⟩⟩) =
      above.reverse ++ below' := by
    have htake : (lines text).take above.length = above.reverse := by
      rw [hstart]
      exact List.take_left' List.length_reverse
    have hdrop : (lines text).drop (above'.length + 1) = below' := by
      rw [hstop, ← List.singleton_append, ← List.append_assoc]
      exact List.drop_left' (by simp)
    simp only [outerLines, Int.toNat_natCast, htake, hdrop]
  rw [houter]
  rcases eq_or_ne (dropLineEnds block) [] with hnil | hne
  · have hline := hg hnil
    rw [lineAt_eq hstart] at hline
    exact sublist_replaceRegion_of_empty hstart hstop hnil hline trailingBlank
  · exact ((written_sublist _).trans
      (sublist_replaceRegion_of_filled hstart hstop hne trailingBlank)).map g

/-- A document whose imports are replaced by `block`, or which `block` is put into: before and behind
it only white space changes, and the lines above and below the imports that are not blank stay. -/
structure Rewritten (text block out : List Char) : Prop where
  parted : ∃ head middle tail, Parted text (scan text).value.region head middle tail ∧
    visible out = visible head ++ visible block ++ visible tail
  trimmed : ((written (outerLines (lines text) (scan text).value.region)).map trim).Sublist
    ((lines out).map trim)
  verbatim : (∀ r, (scan text).value.region = some r → dropLineEnds block = [] →
    Indented text r.start) →
      (written (outerLines (lines text) (scan text).value.region)).Sublist (lines out)

theorem rewritten_replaceRegion {text : List Char} {r : Span}
    (hr : (scan text).value.region = some r) (block : List Char) :
    Rewritten text block (replaceRegion text r block (scan text).value.trailingBlank) := by
  constructor
  · rw [hr]
    exact ⟨_, _, _, parted_region hr, visible_replaceRegion _ _ _ _⟩
  · rw [hr]
    refine sublist_replaceRegion hr _ (fun _ hblank l => ?_) _
    obtain ⟨ws, -, hsplit⟩ := dropEndWhile_append isGap (lineAt text r.start).1
    rw [← hsplit, isBlank, List.all_append, Bool.and_eq_true] at hblank
    exact trim_append_left hblank.1 l
  · intro hindent
    rw [hr]
    have hsub := sublist_replaceRegion (g := id) hr block (fun hnil hblank l => ?_)
      (scan text).value.trailingBlank
    · rwa [List.map_id, List.map_id] at hsub
    · rw [dropEndWhile_eq_nil.2 (hindent r hr hnil hblank), List.nil_append]

theorem rewritten_insertBlock {text : List Char} (hr : (scan text).value.region = none)
    (block : List Char) : Rewritten text block (insertBlock text block).value := by
  obtain ⟨head, tail, htext, hcut, hvisible⟩ := visible_insertBlock text block
  constructor
  · rw [hr]
    exact ⟨head, [], tail, ⟨by rw [List.append_nil]; exact htext, rfl, hcut⟩, hvisible⟩
  · rw [hr]
    exact (sublist_insertBlock _ _).map trim
  · intro _
    rw [hr]
    exact sublist_insertBlock _ _

theorem rewritten_splice (text block : List Char) : Rewritten text block (splice text block) := by
  unfold splice
  split
  · rename_i r hr
    exact rewritten_replaceRegion hr block
  · rename_i hr
    exact rewritten_insertBlock hr block

/-- Organizing breaks off only where a call of the formatter does. Otherwise only the imports are
rewritten: before and behind them, the organized document differs in white space at most. The lines
above and below them that are not blank stay, in order and up to white space at their ends; and they
stay as they are, unless none of the imports remain and these stood behind white space other than
spaces and tabs. -/
theorem organize_rewrites_region (formatter : Formatter) (setting : Setting)
    (unused : Option (List Span)) (suggestions : Option (List Suggestion)) (text : List Char) :
    let result := (organize formatter setting unused suggestions text).run.value
    let draft := draft? setting unused suggestions text
    (∀ e, result = .error e ↔
      ∃ block reason, draft = some block ∧ setting.options.useFormatter = true ∧
        block.isEmpty = false ∧ formatter.isAvailable "rustfmt" = true ∧
        formatter.reply ⟨"rustfmt", setting.options.edition, block⟩ = .broken reason ∧
        e = .brokenCall reason) ∧
    ∀ out, result = .ok out →
      draft = none ∧ out = text ∨
      ∃ block formatted, draft = some block ∧
        (formatBlock formatter setting.options block).run.value = .ok formatted ∧
        Rewritten text formatted.toList out := by
  intro result draft
  refine ⟨fun e => organize_eq_error, fun out hout => ?_⟩
  rcases organize_eq_ok.1 hout with hnone | ⟨block, formatted, hdraft, hformat, rfl⟩
  · exact Or.inl hnone
  · exact Or.inr ⟨block, formatted, hdraft, hformat, rewritten_splice _ _⟩

/-- An unused import behind a form feed, and code below it. -/
def sampleFormFeed : List Char := "\x0cuse a;\nfn f() {}".toList

/-- The line below the imports is joined to the form feed that stood before them. -/
theorem organize_joins_sampleFormFeed :
    written (outerLines (lines sampleFormFeed) (scan sampleFormFeed).value.region) =
        ["fn f() {}".toList] ∧
      (organize .absent {} (some [⟨⟨0, 5⟩, ⟨0, 6⟩⟩]) none sampleFormFeed).run.value =
        .ok "\x0cfn f() {}".toList := by
  decide +kernel

end Document

end TidyUse
